import XamlBinary.Proofs.Node.Decode

/-!
The nodes of a node-stream tile its slice.  A slice is accepted when it can be
cut into segments such that the node decoder, started where a segment begins,
gives one node and stops where the next segment begins, and the last node is
the only `endOfStream`.  The offsets of the nodes are the places where their
segments begin.
-/

namespace XamlBinary

open Reader Decoder LawfulByteSource

/-- Where segment number `i` begins, counted from the start of the first one. -/
def boundary (segments : List (List UInt8)) (i : Nat) : Nat := (segments.take i).flatten.length

@[simp] theorem boundary_zero (segments : List (List UInt8)) : boundary segments 0 = 0 := by
  simp [boundary]

@[simp] theorem boundary_cons_succ (segment : List UInt8) (segments : List (List UInt8))
    (i : Nat) : boundary (segment :: segments) (i + 1) = segment.length + boundary segments i := by
  simp [boundary]

theorem boundary_length (segments : List (List UInt8)) :
    boundary segments segments.length = segments.flatten.length := by
  rw [boundary, List.take_length]

theorem boundary_le (segments : List (List UInt8)) (i : Nat) :
    boundary segments i ≤ segments.flatten.length := by
  have hsplit : (segments.take i).flatten ++ (segments.drop i).flatten = segments.flatten := by
    rw [← List.flatten_append, List.take_append_drop]
  rw [← hsplit, List.length_append]
  exact Nat.le_add_right _ _

theorem skip_boundary (c : Cursor) (n i : Nat) (segments : List (List UInt8)) :
    c.skip (n + boundary segments i) = (c.skip n).skip (boundary segments i) :=
  (skip_skip c _ _).symm

namespace PlacedNode

/-- The segments make up the bytes ahead, and there is one for each node: the node decoder,
started where a segment begins, gives the node and stops where the next segment begins.  A node
is placed, without truncation, where its segment begins. -/
structure Segmented (scope : Scope) (c : Cursor) (segments : List (List UInt8))
    (nodes : List PlacedNode) : Prop where
  flatten_eq : segments.flatten = c.rest
  length_eq : segments.length = nodes.length
  offset_eq : ∀ i p, nodes[i]? = some p → p.offset.toNat = c.offset + boundary segments i
  run_node : ∀ i p, nodes[i]? = some p → ∃ log,
    (Decoder.node scope).run (c.skip (boundary segments i)) =
      .ok p.node (c.skip (boundary segments (i + 1))) log

/-- The slice is empty and holds no nodes, or it is cut into the segments of the nodes, of which
the last one is `endOfStream` and no other is. -/
def Tile (scope : Scope) (slice : List UInt8) (nodes : List PlacedNode) : Prop :=
  slice = [] ∧ nodes = [] ∨
    (∃ segments, Segmented scope (Cursor.start slice) segments nodes) ∧
      ∃ before last, nodes = before ++ [last] ∧ last.node = .endOfStream ∧
        ∀ p ∈ before, p.node ≠ .endOfStream

variable {scope : Scope} {c : Cursor} {segments : List (List UInt8)} {p : PlacedNode}
  {ns : List PlacedNode}

/-! ### Segments one by one -/

theorem segmented_nil_iff : Segmented scope c segments [] ↔ segments = [] ∧ c.rest = [] := by
  constructor
  · intro h
    have hnone : segments = [] := List.length_eq_zero_iff.mp h.length_eq
    have hrest := h.flatten_eq
    rw [hnone] at hrest
    exact ⟨hnone, hrest.symm⟩
  · intro h
    rcases h with ⟨rfl, hrest⟩
    exact ⟨hrest.symm, rfl, by simp, by simp⟩

namespace Segmented

variable {segment : List UInt8}

/-- The first segment is where the bytes begin, and so is its node. -/
theorem first (h : Segmented scope c (segment :: segments) (p :: ns)) :
    segment <+: c.rest ∧ p.offset.toNat = c.offset ∧
      ∃ log, (Decoder.node scope).run c = .ok p.node (c.skip segment.length) log := by
  have hzero : c.skip 0 = c := skip_zero c
  have hbytes : segment ++ segments.flatten = c.rest := h.flatten_eq
  refine ⟨⟨_, hbytes⟩, ?_, ?_⟩
  · simpa using h.offset_eq 0 p rfl
  · simpa [hzero] using h.run_node 0 p rfl

/-- The bytes behind the first segment are segmented by the others. -/
theorem behind (h : Segmented scope c (segment :: segments) (p :: ns)) :
    Segmented scope (c.skip segment.length) segments ns where
  flatten_eq := by
    have hbytes : segment ++ segments.flatten = c.rest := h.flatten_eq
    rw [Cursor.skip, ← hbytes, List.drop_left]
  length_eq := by simpa using h.length_eq
  offset_eq i q hq := by
    have hoffset := h.offset_eq (i + 1) q (by simpa using hq)
    rw [hoffset, boundary_cons_succ, Cursor.skip_of_le h.first.1.length_le, Nat.add_assoc]
  run_node i q hq := by
    have hrun := h.run_node (i + 1) q (by simpa using hq)
    rwa [boundary_cons_succ, boundary_cons_succ, skip_boundary, skip_boundary] at hrun

theorem cons (hfront : segment <+: c.rest) (hoffset : p.offset.toNat = c.offset)
    (hrun : ∃ log, (Decoder.node scope).run c = .ok p.node (c.skip segment.length) log)
    (h : Segmented scope (c.skip segment.length) segments ns) :
    Segmented scope c (segment :: segments) (p :: ns) where
  flatten_eq := by
    have hrest : segments.flatten = c.rest.drop segment.length := h.flatten_eq
    rw [List.flatten_cons, hrest]
    exact (List.prefix_iff_eq_append.mp hfront)
  length_eq := by simp [h.length_eq]
  offset_eq i q hq := by
    cases i with
    | zero =>
        obtain rfl : p = q := by simpa using hq
        simpa using hoffset
    | succ i =>
        have hlater := h.offset_eq i q (by simpa using hq)
        rw [hlater, boundary_cons_succ, Cursor.skip_of_le hfront.length_le, Nat.add_assoc]
  run_node i q hq := by
    cases i with
    | zero =>
        obtain rfl : p = q := by simpa using hq
        have hzero : c.skip 0 = c := skip_zero c
        simpa [hzero] using hrun
    | succ i =>
        rw [boundary_cons_succ, boundary_cons_succ, skip_boundary, skip_boundary]
        exact h.run_node i q (by simpa using hq)

end Segmented

/-! ### Spellings as segments -/

/-- The spellings of the nodes are segments.  The offsets fit their 32 bits because the bytes do
not reach further. -/
theorem Spelled.segmented (h : Spelled c.offset ns c.rest)
    (hvalid : ∀ p ∈ ns, p.node.Valid scope Utf16.Countable)
    (hsize : c.offset + c.rest.length ≤ 2 ^ 32) : ∃ segments, Segmented scope c segments ns := by
  induction ns generalizing c with
  | nil => exact ⟨[], segmented_nil_iff.mpr ⟨rfl, h⟩⟩
  | cons p ps ih =>
      obtain ⟨first, rest, hbytes, hoffset, hfirst, hspelled⟩ := h
      rw [List.forall_mem_cons] at hvalid
      have hpos := List.length_pos_iff.mpr (node_ne_nil hfirst)
      have hlength : c.rest.length = first.length + rest.length := by simp [hbytes]
      have hskip : c.skip first.length = ⟨c.offset + first.length, rest⟩ := by
        rw [Cursor.skip_of_le (by omega), hbytes, List.drop_left]
      have hrun : (Decoder.node scope).run c = .ok p.node (c.skip first.length) p.node.log := by
        rw [hskip]
        exact run_node_eq_ok.mpr ⟨hvalid.1, rfl, first, hfirst, hbytes, rfl⟩
      have hlater : ∃ segments, Segmented scope (c.skip first.length) segments ps := by
        rw [hskip]
        apply ih hspelled hvalid.2
        dsimp only
        omega
      obtain ⟨segments, hsegments⟩ := hlater
      refine ⟨first :: segments, .cons ⟨rest, hbytes.symm⟩ ?_ ⟨_, hrun⟩ hsegments⟩
      rw [hoffset, UInt32.toNat_ofNat_of_lt' (by simp only [UInt32.size]; omega)]

theorem Segmented.spelled (h : Segmented scope c segments ns) :
    (∀ p ∈ ns, p.node.Valid scope Utf16.Countable) ∧ Spelled c.offset ns c.rest := by
  induction ns generalizing c segments with
  | nil => exact ⟨by simp, (segmented_nil_iff.mp h).2⟩
  | cons p ps ih =>
      cases segments with
      | nil => cases h.length_eq
      | cons segment segments =>
          obtain ⟨-, hoffset, log, hrun⟩ := h.first
          obtain ⟨hvalid, -, first, hfirst, hbytes, hplace⟩ := run_node_eq_ok.mp hrun
          obtain ⟨hvalids, hspelled⟩ := ih h.behind
          rw [hplace] at hspelled
          refine ⟨List.forall_mem_cons.mpr ⟨hvalid, hvalids⟩, first, _, hbytes, ?_, hfirst,
            hspelled⟩
          rw [← hoffset, UInt32.ofNat_toNat]

/-! ### The last node -/

theorem endOnce_iff :
    EndOnce ns ↔ ∃ before last, ns = before ++ [last] ∧ last.node = .endOfStream ∧
      ∀ p ∈ before, p.node ≠ .endOfStream := by
  induction ns with
  | nil => simp [EndOnce]
  | cons p ps ih =>
      by_cases hps : ps = []
      · subst hps
        simp only [EndOnce, if_true]
        constructor
        · intro hp
          exact ⟨[], p, rfl, hp, by simp⟩
        · intro h
          obtain ⟨before, last, heq, hlast, -⟩ := h
          obtain ⟨rfl, rfl⟩ : before = [] ∧ last = p := by
            cases before <;> simp_all
          exact hlast
      · rw [EndOnce, if_neg hps, ih]
        constructor
        · intro h
          obtain ⟨hp, before, last, rfl, hlast, hbefore⟩ := h
          exact ⟨p :: before, last, rfl, hlast, List.forall_mem_cons.mpr ⟨hp, hbefore⟩⟩
        · intro h
          obtain ⟨before, last, heq, hlast, hbefore⟩ := h
          cases before with
          | nil => simp_all
          | cons q before =>
              obtain ⟨rfl, rfl⟩ : p = q ∧ ps = before ++ [last] := by simpa using heq
              obtain ⟨hp, hbefore⟩ := List.forall_mem_cons.mp hbefore
              exact ⟨hp, before, last, rfl, hlast, hbefore⟩

theorem gives_nodes_iff_tile {slice : List UInt8} (hsize : slice.length < 2 ^ 32) :
    (Decoder.nodes scope).Gives slice ns ↔ Tile scope slice ns := by
  have hgives : (Decoder.nodes scope).Gives slice ns ↔
      Complete ns ∧ ∃ segments, Segmented scope (Cursor.start slice) segments ns := by
    constructor
    · intro h
      obtain ⟨c', log, hrun⟩ := h
      obtain ⟨hcomplete, hvalid, hspelled, -⟩ := run_nodes_eq_ok.mp hrun
      refine ⟨hcomplete, Spelled.segmented hspelled hvalid ?_⟩
      simp only [Cursor.start]
      omega
    · intro h
      obtain ⟨hcomplete, segments, hsegments⟩ := h
      obtain ⟨hvalid, hspelled⟩ := hsegments.spelled
      exact ⟨_, _, run_nodes_eq_ok.mpr ⟨hcomplete, hvalid, hspelled, rfl, rfl⟩⟩
  rw [hgives, Complete, or_and_right, Tile, and_comm (a := EndOnce ns), endOnce_iff]
  -- what is left is the case without nodes, where the slice has to be empty
  apply or_congr_left
  constructor
  · intro h
    obtain ⟨rfl, segments, h⟩ := h
    exact ⟨(segmented_nil_iff.mp h).2, rfl⟩
  · intro h
    obtain ⟨rfl, rfl⟩ := h
    exact ⟨rfl, [], segmented_nil_iff.mpr ⟨rfl, rfl⟩⟩

/-! ### Offsets -/

namespace Segmented

theorem pairwise (h : Segmented scope c segments ns) :
    ns.Pairwise fun p q => p.offset.toNat < q.offset.toNat := by
  induction ns generalizing c segments with
  | nil => exact .nil
  | cons p ps ih =>
      cases segments with
      | nil => cases h.length_eq
      | cons segment segments =>
          obtain ⟨-, hoffset, log, hrun⟩ := h.first
          obtain ⟨-, -, first, hfirst, -, hplace⟩ := run_node_eq_ok.mp hrun
          have hpos := List.length_pos_iff.mpr (node_ne_nil hfirst)
          refine List.pairwise_cons.mpr ⟨fun q hq => ?_, ih h.behind⟩
          obtain ⟨i, hi⟩ := List.getElem?_of_mem hq
          have hq := h.behind.offset_eq i q hi
          omega

/-- `endOfStream` is a single byte. -/
theorem offset_last {before : List PlacedNode} {last : PlacedNode}
    (h : Segmented scope c segments (before ++ [last])) (hlast : last.node = .endOfStream) :
    last.offset.toNat + 1 = c.offset + c.rest.length := by
  have hget : (before ++ [last])[before.length]? = some last := by simp
  have hlength : segments.length = before.length + 1 := by simpa using h.length_eq
  have hend : boundary segments (before.length + 1) = c.rest.length := by
    rw [← hlength, boundary_length, h.flatten_eq]
  have hle : boundary segments before.length ≤ c.rest.length := by
    rw [← h.flatten_eq]
    exact boundary_le segments before.length
  obtain ⟨log, hrun⟩ := h.run_node _ _ hget
  obtain ⟨-, -, spelling, hspelling, -, hplace⟩ := run_node_eq_ok.mp hrun
  obtain rfl : spelling = [9] := by
    rw [hlast] at hspelling
    exact Written.spells_fixed_iff.mp hspelling
  rw [hend, Cursor.skip_of_le le_rfl, Cursor.skip_of_le hle, List.length_singleton] at hplace
  rw [h.offset_eq _ _ hget]
  exact hplace.symm

end Segmented

end PlacedNode

open PlacedNode in
/-- A slice of fewer bytes than a 32-bit offset can count is accepted exactly when the nodes tile
it.  The offsets of the nodes begin with zero, grow, and end at the last byte of the slice.  A
slice that no nodes tile is rejected. -/
theorem nodes_iff_tile (scope : Scope) (slice : List UInt8) (hsize : slice.length < 2 ^ 32) :
    (∀ ns, (Decoder.nodes scope).Gives slice ns ↔ Tile scope slice ns) ∧
      (∀ ns, (Decoder.nodes scope).Gives slice ns →
        (∀ p ∈ ns.head?, p.offset = 0) ∧
          (ns.Pairwise fun p q => p.offset.toNat < q.offset.toNat) ∧
          ∀ p ∈ ns.getLast?, p.offset.toNat = slice.length - 1) ∧
      ((¬ ∃ ns, Tile scope slice ns) →
        ∃ fault c log, (Decoder.nodes scope).run (Cursor.start slice) = .fail fault c log) := by
  refine ⟨fun ns => gives_nodes_iff_tile hsize, fun ns hns => ?_, fun hnone => ?_⟩
  · rcases (gives_nodes_iff_tile hsize).mp hns with
      ⟨-, rfl⟩ | ⟨⟨segments, hsegments⟩, before, last, rfl, hlast, -⟩
    · simp
    · refine ⟨fun p hp => ?_, hsegments.pairwise, fun p hp => ?_⟩
      · have hoffset := hsegments.offset_eq 0 p (by rwa [← List.head?_eq_getElem?])
        exact UInt32.toNat_inj.mp (by simpa [Cursor.start] using hoffset)
      · obtain rfl : last = p := by simpa using hp
        have hoffset := hsegments.offset_last hlast
        simp only [Cursor.start] at hoffset
        omega
  · cases hrun : (Decoder.nodes scope).run (Cursor.start slice) with
    | ok ns c log => exact absurd ⟨ns, (gives_nodes_iff_tile hsize).mp ⟨c, log, hrun⟩⟩ hnone
    | fail fault c log => exact ⟨fault, c, log, rfl⟩

open PlacedNode in
/-- Tags in the payload of the first node (nine, twelve) begin no segment. -/
theorem nodes_iff_tile_of_tags_in_payload :
    [6, 8, 9, 12, 9, 12, 2, 9].length < 2 ^ 32 ∧
      Tile ⟨0, 0, 0, 0, false⟩ [6, 8, 9, 12, 9, 12, 2, 9]
        [⟨0, .value (.signed 0x0c090c09)⟩, ⟨6, .endObject⟩, ⟨7, .endOfStream⟩] :=
  ⟨by decide, ((nodes_iff_tile _ _ (by decide)).1 _).mp ⟨⟨8, []⟩, [], by decide⟩⟩

end XamlBinary
