import Mathlib.Data.List.Basic
import XamlBinary.Proofs.ByteStream.Displaced
import XamlBinary.Proofs.File.Behind

/-!
Sections that begin further on.  The offsets in the bytes of a file are
counted from the section that they stand in, so sections are decoded alike
wherever they begin, and what is wrong with them is found as many bytes
further on.
-/

namespace XamlBinary

open Reader

variable {d : Nat}

/-! ### Sections further on -/

theorem Metadata.displaced_read (size : UInt32) :
    Displaced d (Metadata.read size) (Metadata.read size) :=
  .position fun start => (Displaced.block _ _).bind fun bytes =>
    (Coupled.note _ _).bind fun _ => Displaced.within start bytes decoder

namespace Substream

theorem displaced_readParts (scope : Scope) (index lineEnd : Nat) (entry : SubstreamEntry) :
    Displaced d (readParts scope index lineEnd entry) (readParts scope index lineEnd entry) := by
  refine .position fun start => (Coupled.note _ _).bind fun _ => ?_
  refine (Displaced.block _ _).bind fun nodeBytes => ?_
  refine (Displaced.within start nodeBytes (Decoder.nodes scope)).bind fun nodes => ?_
  refine (Displaced.block _ _).bind fun lineBytes => ?_
  rw [Nat.add_assoc]
  exact (Displaced.within _ lineBytes Decoder.lineEntries).bind fun _ => .pure _

theorem displaced_readEntry (scope : Scope) (bodyStart bodySize index : Nat)
    (entry : SubstreamEntry) (later : List SubstreamEntry) :
    Displaced d (readEntry scope bodyStart bodySize index entry later)
      (readEntry scope (d + bodyStart) bodySize index entry later) := by
  refine .position fun start => ?_
  dsimp only
  -- where the substream begins is compared with where it should begin, and both have moved
  rw [Nat.add_assoc]
  refine .ite (not_congr (Nat.add_left_cancel_iff.symm)) ?_ ?_
  · exact .fail (Fault.displaced_malformed start (.substreamStart index _))
  refine .ite Iff.rfl (.malformed start _) (.ite Iff.rfl (.malformed start _) ?_)
  exact displaced_readParts scope index _ entry

theorem displaced_readAll (scope : Scope) (bodyStart bodySize index : Nat)
    (table : List SubstreamEntry) :
    Displaced d (readAll scope bodyStart bodySize index table)
      (readAll scope (d + bodyStart) bodySize index table) := by
  induction table generalizing index with
  | nil => exact .pure []
  | cons entry later ih =>
      have hentry := displaced_readEntry (d := d) scope bodyStart bodySize index entry later
      exact hentry.bind fun _ => (ih (index + 1)).bind fun _ => .pure _

theorem displaced_readSection (scope : Scope) (size : UInt32) :
    Displaced d (readSection scope size) (readSection scope size) := by
  have hentry : Displaced d SubstreamEntry.read SubstreamEntry.read :=
    (Displaced.uint32 _).bind fun _ => (Displaced.uint32 _).bind fun _ => .pure _
  refine .position fun sectionStart => (Displaced.table _ hentry).bind fun table => ?_
  refine Displaced.position fun bodyStart => ?_
  -- the section and its body move together, so the body keeps its size
  rw [Nat.add_assoc, Nat.add_sub_add_left]
  refine .ite Nat.add_lt_add_iff_left.symm (.malformed sectionStart _) ?_
  refine (Coupled.note _ _).bind fun _ => (displaced_readAll scope bodyStart _ 0 table).bind ?_
  refine fun substreams => Displaced.position fun here => ?_
  refine .ite (not_congr Nat.add_left_cancel_iff.symm) ?_ ?_
  · exact .fail (Fault.displaced_malformed here (.substreamsEnd here _))
  · exact .pure substreams

end Substream

namespace File

variable {header header' : Header}

theorem deferralsOf_add (d bodyStart : Nat) (s : Substream) :
    deferralsOf (d + bodyStart) s =
      (deferralsOf bodyStart s).map fun x => ⟨d + x.offset, x.substream⟩ := by
  rw [deferralsOf, deferralsOf, List.map_filterMap]
  refine List.filterMap_congr fun p _ => ?_
  cases p.node with
  | runtimeData data substream =>
      simp only [Option.map_some, Nat.add_assoc]
  | _ => rfl

theorem deferrals_of_size (hsize : header'.size = d + header.size)
    (hmetadata : header'.metadataSize = header.metadataSize) (substreams : List Substream) :
    deferrals header' substreams =
      (deferrals header substreams).map fun x => ⟨d + x.offset, x.substream⟩ := by
  have hstart : bodyStart header' substreams = d + bodyStart header substreams := by
    simp only [bodyStart, hsize, hmetadata, Nat.add_assoc]
  rw [deferrals, deferrals, hstart, List.map_flatMap]
  exact List.flatMap_congr fun s _ => deferralsOf_add d _ s

theorem displaced_checkDeferrals (hsize : header'.size = d + header.size)
    (hmetadata : header'.metadataSize = header.metadataSize) (substreams : List Substream) :
    Displaced d (checkDeferrals header substreams) (checkDeferrals header' substreams) := by
  -- whether a deferral is missing does not depend on its place
  have hfind :
      (deferrals header' substreams).find? (fun x => substreams.length ≤ x.substream.toNat) =
        ((deferrals header substreams).find? fun x => substreams.length ≤ x.substream.toNat).map
          fun x => ⟨d + x.offset, x.substream⟩ := by
    rw [deferrals_of_size hsize hmetadata, List.find?_map]
    rfl
  rw [checkDeferrals, checkDeferrals, hfind]
  cases (deferrals header substreams).find? fun x => substreams.length ≤ x.substream.toNat with
  | none => exact .pure ()
  | some x => exact .malformed x.offset _

/-- The file with a version in its header. -/
def withVersion (v : Version) (f : File) : File :=
  { f with header := { f.header with version := some v } }

theorem displaced_readBehind (strict : Bool) (m n : UInt32) (v : Version) :
    Displaced 8 (withVersion v <$> readBehind strict ⟨m, n, none⟩)
      (readBehind strict ⟨m, n, some v⟩) := by
  simp only [readBehind, map_bind, map_pure]
  refine (Coupled.note _ _).bind fun _ => (Metadata.displaced_read m).bind fun metadata => ?_
  refine (Coupled.note _ _).bind fun _ => ?_
  refine (Substream.displaced_readSection (metadata.scope strict) n).bind fun substreams => ?_
  refine (Coupled.note _ _).bind fun _ => ?_
  have hcheck : Displaced 8 (checkDeferrals ⟨m, n, none⟩ substreams)
      (checkDeferrals ⟨m, n, some v⟩ substreams) := by
    refine displaced_checkDeferrals ?_ ?_ substreams
    · rfl
    · rfl
  exact hcheck.bind fun _ => (Coupled.note _ _).bind fun _ => .pure _

end File

end XamlBinary
