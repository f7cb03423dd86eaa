import XamlBinary.Proofs.File.Extension
import XamlBinary.Proofs.File.RoundTrip
import XamlBinary.Proofs.Written.Shortest

/-!
Writing again what was read.  The bytes of an accepted file spell the written
form of that file, so nothing in them is lost but how its 7-bit integers were
spelled: the file is written as the bytes that it was read from exactly when
all of these were as short as they can be.
-/

namespace XamlBinary

open Reader

theorem PlacedNode.Spelled.spells {offset : Nat} {nodes : List PlacedNode} {bytes : List UInt8}
    (h : Spelled offset nodes bytes) :
    Written.Spells (nodes.flatMap (·.node.written)) bytes := by
  induction nodes generalizing offset bytes with
  | nil =>
      obtain rfl : bytes = [] := h
      exact .nil
  | cons p ps ih =>
      obtain ⟨first, rest, rfl, -, hnode, hrest⟩ := h
      rw [List.flatMap_cons]
      exact hnode.append (ih hrest)

/-- The slices of the substreams spell what the substreams are written as. -/
theorem Substream.Tiled.spells {scope : Scope} {bodySize start : Nat} {subs : List Substream}
    {bytes : List UInt8} (h : Tiled scope bodySize start subs bytes) :
    Written.Spells (subs.flatMap written) bytes := by
  induction subs generalizing start bytes with
  | nil =>
      obtain rfl : bytes = [] := h
      exact .nil
  | cons sub subs ih =>
      obtain ⟨nodeBytes, lineBytes, rest, rfl, -, -, -, ⟨c, log, hnodes⟩, ⟨c', log', hlines⟩,
        hrest⟩ := h
      obtain ⟨-, -, hspelled, -, -⟩ := Decoder.run_nodes_eq_ok.mp hnodes
      obtain ⟨-, -, hspells, -, -⟩ := Decoder.run_lineEntries_eq_ok.mp hlines
      rw [List.flatMap_cons, written, ← List.append_assoc]
      exact (hspelled.spells.append hspells).append (ih hrest)

namespace File

variable {settings : Settings} {bytes body : List UInt8} {f : File}

theorem ReadFrom.spells {length : Nat} (h : f.ReadFrom settings length body) :
    f.written.Spells (f.front ++ body) := by
  have htable : Written.Spells (.table SubstreamEntry.written (f.substreams.map (·.entry)))
      (SubstreamEntry.tableBytes (f.substreams.map (·.entry))) := Written.spells_bytes _
  have hwritten : f.written = f.header.written ++ (f.metadata.written ++
      (Written.table SubstreamEntry.written (f.substreams.map (·.entry)) ++
        f.substreams.flatMap Substream.written)) := by
    rw [written, Substream.writtenSection, Written.table, Written.table, List.length_map,
      List.flatMap_map, List.append_assoc]
  rw [hwritten, front, List.append_assoc, List.append_assoc]
  exact (Written.spells_bytes _).append
    ((Written.spells_bytes _).append (htable.append h.tiled.spells))

/-- The bytes of an accepted file are a spelling of that file.  It is written as these bytes
exactly when every 7-bit integer in them is in its shortest form. -/
theorem bytes_eq_iff_shortest (settings : Settings) (bytes : List UInt8) (f : File)
    (hf : ofBytes settings bytes = .ok f) :
    f.written.Spells bytes ∧
      (f.bytes = bytes ↔
        ∀ spelling ∈ f.written.varintsIn bytes, Varint.IsShortest spelling) := by
  obtain ⟨body, hread, rfl⟩ := ofBytes_eq_ok.mp hf
  exact ⟨hread.spells, hread.spells.bytes_eq_iff⟩

/-- A file with one substream, in which a line entry begins with a zero of two bytes. -/
def padded : List UInt8 :=
  [0x58, 0x42, 0x46, 0, 24, 0, 0, 0, 17, 0, 0, 0] ++ List.replicate 24 0 ++
    [1, 0, 0, 0, 0, 0, 0, 0, 1, 0, 0, 0, 0x09, 0x80, 0x00, 7, 1]

theorem ofBytes_padded : ofBytes {} padded =
    .ok ⟨⟨24, 17, none⟩, {}, [⟨⟨0, 1⟩, [⟨0, .endOfStream⟩], [⟨0, 7, 1⟩]⟩]⟩ := by
  decide +kernel

/-- The zero has a shorter spelling, so the file is not written with these bytes. -/
theorem bytes_ne_padded : ∃ f, ofBytes {} padded = .ok f ∧ f.written.Spells padded ∧
    f.written.varintsIn padded = [[0x80, 0], [7], [1]] ∧ f.bytes ≠ padded := by
  obtain ⟨hspells, hiff⟩ := bytes_eq_iff_shortest {} padded _ ofBytes_padded
  refine ⟨_, ofBytes_padded, hspells, by decide +kernel, fun hbytes => ?_⟩
  have hclosed : Varint.Closed [0] := (Varint.closed_singleton 0).mpr (by decide)
  have hlong : Varint.Spells [0x80, 0] 0 := ⟨⟨by decide, hclosed⟩, by decide, by decide⟩
  have hshort : Varint.Spells [0] 0 := ⟨hclosed, by decide, by decide⟩
  have hshortest := hiff.mp hbytes [0x80, 0] (by decide +kernel)
  exact absurd (hshortest 0 [0] hlong hshort) (by decide)

end File

end XamlBinary
