import Mathlib.Data.List.Chain
import Mathlib.Data.List.Forall2
import XamlBinary.Proofs.Substream.Read

/-!
The table of a node-stream section is an exact partition of the body behind
it.  The entries cut the body into slices that leave nothing out and overlap
nowhere, two to a substream, and each substream is what its own two slices
hold.
-/

namespace XamlBinary

open Reader

/-- The bytes from `start` up to `stop`. -/
def slice (body : List UInt8) (start stop : Nat) : List UInt8 := (body.take stop).drop start

section Slices

variable {body : List UInt8} {start stop : Nat}

theorem length_slice (h : stop ≤ body.length) : (slice body start stop).length = stop - start := by
  rw [slice, List.length_drop, List.length_take, Nat.min_eq_left h]

theorem drop_eq_slice_append (h : start ≤ stop) :
    body.drop start = slice body start stop ++ body.drop stop := by
  have hdrop : body.drop stop = (body.drop start).drop (stop - start) := by
    rw [List.drop_drop, Nat.add_sub_cancel' h]
  rw [slice, List.drop_take, hdrop, List.take_append_drop]

/-- What the rest of a body begins with is a slice of it. -/
theorem slice_of_drop_eq {first rest : List UInt8} (h : body.drop start = first ++ rest)
    (hstop : stop = start + first.length) :
    slice body start stop = first ∧ body.drop stop = rest := by
  have hlength : stop - start = first.length := by omega
  constructor
  · rw [slice, List.drop_take, h, hlength, List.take_left]
  · rw [hstop, ← List.drop_drop, h, List.drop_left]

end Slices

namespace SubstreamEntry

variable {body : List UInt8} {bodySize start : Nat} {e : SubstreamEntry}
  {later table : List SubstreamEntry}

/-- The node-stream of each entry and the line-stream behind it. -/
def slices (body : List UInt8) : List SubstreamEntry → List (List UInt8 × List UInt8)
  | [] => []
  | e :: later =>
      (slice body e.nodeOffset.toNat e.lineOffset.toNat,
        slice body e.lineOffset.toNat (lineEnd body.length later)) :: slices body later

/-- The entries of a table, if there are any, begin with the body, never go back and do not
pass its end; without entries there is no body. -/
def Partitions (table : List SubstreamEntry) (bodySize : Nat) : Prop :=
  table = [] ∧ bodySize = 0 ∨
    ∃ h : table ≠ [], (table.head h).nodeOffset = 0 ∧
      (∀ e ∈ table, e.nodeOffset ≤ e.lineOffset) ∧
      table.IsChain (fun e next => e.lineOffset ≤ next.nodeOffset) ∧
      (table.getLast h).lineOffset.toNat ≤ bodySize

/-- Entries that follow each other from `start` on to the end of the body. -/
def Follow (bodySize start : Nat) : List SubstreamEntry → Prop
  | [] => start = bodySize
  | e :: later => e.nodeOffset.toNat = start ∧ start ≤ e.lineOffset.toNat ∧
      e.lineOffset.toNat ≤ lineEnd bodySize later ∧
      Follow bodySize (lineEnd bodySize later) later

theorem Follow.le (h : Follow bodySize start table) : start ≤ bodySize := by
  induction table generalizing start with
  | nil => exact Nat.le_of_eq h
  | cons e later ih =>
      obtain ⟨-, hnode, hline, hlater⟩ := h
      have hend := ih hlater
      omega

theorem follow_cons_iff :
    Follow bodySize start (e :: later) ↔
      e.nodeOffset.toNat = start ∧ (∀ x ∈ e :: later, x.nodeOffset ≤ x.lineOffset) ∧
        (e :: later).IsChain (fun x next => x.lineOffset ≤ next.nodeOffset) ∧
        ((e :: later).getLast (List.cons_ne_nil e later)).lineOffset.toNat ≤ bodySize := by
  induction later generalizing e start with
  | nil =>
      simp only [Follow, lineEnd, and_true, List.forall_mem_singleton, List.isChain_singleton,
        true_and, List.getLast_singleton, UInt32.le_iff_toNat_le]
      constructor
      · rintro ⟨rfl, h⟩
        exact ⟨rfl, h⟩
      · rintro ⟨rfl, h⟩
        exact ⟨rfl, h⟩
  | cons next later ih =>
      rw [Follow, ih, List.isChain_cons_cons, List.getLast_cons_cons, UInt32.le_iff_toNat_le]
      constructor
      · rintro ⟨rfl, hnode, hline, -, hall, hchain, hlast⟩
        have hnode := UInt32.le_iff_toNat_le.mpr hnode
        exact ⟨rfl, List.forall_mem_cons.mpr ⟨hnode, hall⟩, ⟨hline, hchain⟩, hlast⟩
      · rintro ⟨rfl, hall, ⟨hline, hchain⟩, hlast⟩
        obtain ⟨hnode, hall⟩ := List.forall_mem_cons.mp hall
        exact ⟨rfl, UInt32.le_iff_toNat_le.mp hnode, hline, rfl, hall, hchain, hlast⟩

theorem follow_iff_partitions : Follow bodySize 0 table ↔ Partitions table bodySize := by
  cases table with
  | nil => simp [Follow, Partitions, eq_comm]
  | cons e later =>
      rw [follow_cons_iff, Partitions]
      constructor
      · rintro ⟨hfirst, h⟩
        exact .inr ⟨List.cons_ne_nil e later, UInt32.toNat_inj.mp hfirst, h⟩
      · rintro (⟨hnil, -⟩ | ⟨_, hfirst, h⟩)
        · cases hnil
        · exact ⟨congrArg UInt32.toNat hfirst, h⟩

/-- The slices of entries that follow each other are the whole rest of the body. -/
theorem flatMap_slices (h : Follow body.length start table) :
    (slices body table).flatMap (fun p => p.1 ++ p.2) = body.drop start := by
  induction table generalizing start with
  | nil =>
      obtain rfl : start = body.length := h
      rw [List.drop_length]
      rfl
  | cons e later ih =>
      obtain ⟨rfl, hnode, hline, hlater⟩ := h
      rw [slices, List.flatMap_cons, ih hlater, List.append_assoc, ← drop_eq_slice_append hline,
        ← drop_eq_slice_append hnode]

end SubstreamEntry

namespace Substream

open SubstreamEntry

variable {scope : Scope} {body : List UInt8} {start : Nat} {subs : List Substream}

/-- The substream is what the two slices hold. -/
def Holds (scope : Scope) (slices : List UInt8 × List UInt8) (s : Substream) : Prop :=
  (Decoder.nodes scope).Gives slices.1 s.nodes ∧ Decoder.lineEntries.Gives slices.2 s.lines

theorem tiled_iff_follow (hstart : start ≤ body.length) :
    Tiled scope body.length start subs (body.drop start) ↔
      Follow body.length start (subs.map (·.entry)) ∧
        List.Forall₂ (Holds scope) (slices body (subs.map (·.entry))) subs := by
  induction subs generalizing start with
  | nil =>
      rw [Tiled, List.map_nil, Follow, List.drop_eq_nil_iff, slices]
      constructor
      · exact fun h => ⟨Nat.le_antisymm hstart h, .nil⟩
      · exact fun h => Nat.le_of_eq h.1.symm
  | cons s later ih =>
      rw [Tiled, List.map_cons, Follow, slices, List.forall₂_cons]
      constructor
      · rintro ⟨nodeBytes, lineBytes, rest, hbytes, rfl, hline, hend, hnodes, hlines, hrest⟩
        have hle := hrest.lineEnd_le hend
        obtain ⟨hnodeSlice, hmiddle⟩ := slice_of_drop_eq hbytes hline
        rw [hline] at hmiddle
        obtain ⟨hlineSlice, hdrop⟩ := slice_of_drop_eq hmiddle hend
        rw [← hline] at hlineSlice
        rw [← hdrop, ← hend] at hrest
        obtain ⟨hfollow, hholds⟩ := (ih (by omega)).mp hrest
        refine ⟨⟨rfl, by omega, by omega, hfollow⟩, ⟨?_, ?_⟩, hholds⟩
        · rwa [hnodeSlice]
        · rwa [hlineSlice]
      · rintro ⟨⟨rfl, hnode, hline, hfollow⟩, ⟨hnodes, hlines⟩, hholds⟩
        have hle := hfollow.le
        -- the slices have the lengths that the offsets say, since no offset passes the end
        have hnodeLength : (slice body s.entry.nodeOffset.toNat s.entry.lineOffset.toNat).length =
            s.entry.lineOffset.toNat - s.entry.nodeOffset.toNat := length_slice (hline.trans hle)
        have hlineLength : (slice body s.entry.lineOffset.toNat
            (lineEnd body.length (later.map (·.entry)))).length =
            lineEnd body.length (later.map (·.entry)) - s.entry.lineOffset.toNat := length_slice hle
        have hend : s.entry.nodeOffset.toNat +
            (slice body s.entry.nodeOffset.toNat s.entry.lineOffset.toNat).length +
            (slice body s.entry.lineOffset.toNat
              (lineEnd body.length (later.map (·.entry)))).length =
            lineEnd body.length (later.map (·.entry)) := by omega
        refine ⟨_, _, body.drop (lineEnd body.length (later.map (·.entry))), ?_, rfl, ?_, hend.symm,
          hnodes, hlines, ?_⟩
        · rw [← drop_eq_slice_append hline, ← drop_eq_slice_append hnode]
        · omega
        · rw [hend]
          exact (ih hle).mpr ⟨hfollow, hholds⟩

/-- A body is tiled by the slices of substreams when their table partitions it and each is
what its own slices hold. -/
theorem tiled_iff_partitions :
    Tiled scope body.length 0 subs body ↔
      Partitions (subs.map (·.entry)) body.length ∧
        List.Forall₂ (Holds scope) (slices body (subs.map (·.entry))) subs := by
  rw [← follow_iff_partitions, ← tiled_iff_follow (Nat.zero_le _), List.drop_zero]

/-! ### Sections that are accepted -/

/-- A section is a table and the body that the table partitions, into slices that can be
decoded. -/
structure Splits (scope : Scope) (bytes : List UInt8) (table : List SubstreamEntry)
    (body : List UInt8) : Prop where
  count : table.length < 2 ^ 31
  bytes_eq : bytes = tableBytes table ++ body
  partitions : Partitions table body.length
  nodes : ∀ p ∈ slices body table, ∃ nodes, (Decoder.nodes scope).Gives p.1 nodes
  lines : ∀ p ∈ slices body table, ∃ lines, Decoder.lineEntries.Gives p.2 lines

theorem exists_holds {table : List SubstreamEntry}
    (hnodes : ∀ p ∈ slices body table, ∃ nodes, (Decoder.nodes scope).Gives p.1 nodes)
    (hlines : ∀ p ∈ slices body table, ∃ lines, Decoder.lineEntries.Gives p.2 lines) :
    ∃ subs, subs.map (·.entry) = table ∧ List.Forall₂ (Holds scope) (slices body table) subs := by
  induction table with
  | nil => exact ⟨[], rfl, .nil⟩
  | cons e later ih =>
      rw [slices, List.forall_mem_cons] at hnodes hlines
      obtain ⟨⟨nodes, hnode⟩, hnodes⟩ := hnodes
      obtain ⟨⟨lines, hline⟩, hlines⟩ := hlines
      obtain ⟨subs, hmap, hholds⟩ := ih hnodes hlines
      exact ⟨⟨e, nodes, lines⟩ :: subs, congrArg (e :: ·) hmap, .cons ⟨hnode, hline⟩ hholds⟩

theorem Holds.exists_gives {parts : List (List UInt8 × List UInt8)}
    (h : List.Forall₂ (Holds scope) parts subs) :
    (∀ p ∈ parts, ∃ nodes, (Decoder.nodes scope).Gives p.1 nodes) ∧
      ∀ p ∈ parts, ∃ lines, Decoder.lineEntries.Gives p.2 lines := by
  induction h with
  | nil => simp
  | cons hhold _ ih =>
      exact ⟨List.forall_mem_cons.mpr ⟨⟨_, hhold.1⟩, ih.1⟩,
        List.forall_mem_cons.mpr ⟨⟨_, hhold.2⟩, ih.2⟩⟩

section Section

variable {s : ByteStream} {size : UInt32}

/-- All that a run of the reader does that ends well, on a stream of which the section is all
that is left. -/
theorem run_readSection_iff_splits (hlimit : s.limit = none)
    (htell : s.brokenSeek ≠ some .fromCurrent) (hsize : s.bytes.length = s.position + size.toNat)
    {s' : ByteStream} :
    (∃ log, (readSection scope size).run s = .ok subs s' log) ↔
      s' = { s with position := s.position + size.toNat } ∧ ∃ body,
        Splits scope (s.bytes.drop s.position) (subs.map (·.entry)) body ∧
          List.Forall₂ (Holds scope) (slices body (subs.map (·.entry))) subs := by
  have hreadable : s.readable = s.bytes.drop s.position := by rw [ByteStream.readable, hlimit]
  have hleft : (s.bytes.drop s.position).length = size.toNat := by
    rw [List.length_drop]
    omega
  constructor
  · rintro ⟨log, hrun⟩
    obtain ⟨hcount, body, htiled, hlength, hspan, -⟩ := (run_readSection_eq_ok htell).mp hrun
    obtain ⟨hahead, rfl⟩ := spans_fixed_iff.mp hspan
    have htotal : (tableBytes (subs.map (·.entry)) ++ body).length = size.toNat := by
      rw [List.length_append, length_tableBytes, List.length_map, hlength]
    rw [ByteStream.ahead_eq, hreadable] at hahead
    obtain ⟨hpartitions, hholds⟩ := tiled_iff_partitions.mp htiled
    obtain ⟨hnodes, hlines⟩ := Holds.exists_gives hholds
    refine ⟨by rw [htotal]; rfl, body, ⟨by rwa [List.length_map], ?_, hpartitions, hnodes, hlines⟩,
      hholds⟩
    exact (hahead.eq_of_length (htotal.trans hleft.symm)).symm
  · rintro ⟨rfl, body, ⟨hcount, hbytes, hpartitions, -, -⟩, hholds⟩
    have htotal := congrArg List.length hbytes
    rw [hleft, List.length_append, length_tableBytes, List.length_map] at htotal
    rw [List.length_map] at hcount
    refine ⟨_, (run_readSection_eq_ok htell).mpr ⟨hcount, body,
      tiled_iff_partitions.mpr ⟨hpartitions, hholds⟩, htotal.symm, spans_fixed_iff.mpr ⟨?_, ?_⟩,
      rfl⟩⟩
    · refine ⟨[], ?_⟩
      rw [ByteStream.ahead_eq, hreadable, hbytes, List.append_nil]
    · rw [List.length_append, length_tableBytes, List.length_map, ← htotal]
      rfl

/-- On a stream with nothing left but the section, a section is accepted exactly when its
table partitions its body into slices that can be decoded.  Then the result has the table of
the file, each substream is the decode of its own two slices, the slices make up the body, and
the stream stands at the end of the section.  Any other section fails. -/
theorem readSection_partition (scope : Scope) (s : ByteStream) (size : UInt32)
    (hlimit : s.limit = none) (htell : s.brokenSeek ≠ some .fromCurrent)
    (hsize : s.bytes.length = s.position + size.toNat) :
    ((∃ subs s' log, (readSection scope size).run s = .ok subs s' log) ↔
        ∃ table body, Splits scope (s.bytes.drop s.position) table body) ∧
      (∀ subs s' log, (readSection scope size).run s = .ok subs s' log →
        s' = { s with position := s.position + size.toNat } ∧
          ∃ body, s.bytes.drop s.position = tableBytes (subs.map (·.entry)) ++ body ∧
            (slices body (subs.map (·.entry))).flatMap (fun p => p.1 ++ p.2) = body ∧
            List.Forall₂ (Holds scope) (slices body (subs.map (·.entry))) subs) ∧
      ((¬ ∃ table body, Splits scope (s.bytes.drop s.position) table body) →
        ∃ fault s' log, (readSection scope size).run s = .fail fault s' log) := by
  have hiff : (∃ subs s' log, (readSection scope size).run s = .ok subs s' log) ↔
      ∃ table body, Splits scope (s.bytes.drop s.position) table body := by
    constructor
    · rintro ⟨subs, s', hrun⟩
      obtain ⟨-, body, hsplits, -⟩ := (run_readSection_iff_splits hlimit htell hsize).mp hrun
      exact ⟨_, body, hsplits⟩
    · rintro ⟨table, body, hsplits⟩
      obtain ⟨subs, rfl, hholds⟩ := exists_holds hsplits.nodes hsplits.lines
      exact ⟨subs, _, (run_readSection_iff_splits hlimit htell hsize).mpr
        ⟨rfl, body, hsplits, hholds⟩⟩
  refine ⟨hiff, ?_, ?_⟩
  · intro subs s' log hrun
    obtain ⟨hstate, body, hsplits, hholds⟩ :=
      (run_readSection_iff_splits hlimit htell hsize).mp ⟨log, hrun⟩
    refine ⟨hstate, body, hsplits.bytes_eq, ?_, hholds⟩
    exact flatMap_slices (follow_iff_partitions.mpr hsplits.partitions)
  · intro hnone
    cases hrun : (readSection scope size).run s with
    | ok subs s' log => exact absurd (hiff.mp ⟨subs, s', log, hrun⟩) hnone
    | fail fault s' log => exact ⟨fault, s', log, rfl⟩

/-- Two neighbours: two nodes with a line entry each, and a single node with its line entry. -/
def neighbours : List Substream :=
  [⟨⟨0, 2⟩, [⟨0, .endObject⟩, ⟨1, .endOfStream⟩], [⟨0, 1, 2⟩, ⟨1, 3, 4⟩]⟩,
    ⟨⟨8, 9⟩, [⟨0, .endOfStream⟩], [⟨0, 5, 6⟩]⟩]

/-- What the neighbours share, from the nodes of the first to the lines of the second. -/
def neighboursBody : List UInt8 := [2, 9, 0, 1, 2, 1, 3, 4, 9, 0, 5, 6]

def neighboursSection : List UInt8 := tableBytes (neighbours.map (·.entry)) ++ neighboursBody

theorem neighbours_splits :
    Splits ⟨0, 0, 0, 0, false⟩ neighboursSection (neighbours.map (·.entry)) neighboursBody where
  count := by decide
  bytes_eq := rfl
  partitions := .inr ⟨by decide, rfl, by simp [neighbours], by simp [neighbours], by decide⟩
  nodes := List.forall_mem_cons.mpr ⟨⟨_, _, _, rfl⟩,
    List.forall_mem_cons.mpr ⟨⟨_, _, _, rfl⟩, List.forall_mem_nil _⟩⟩
  lines := List.forall_mem_cons.mpr ⟨⟨_, _, _, rfl⟩,
    List.forall_mem_cons.mpr ⟨⟨_, _, _, rfl⟩, List.forall_mem_nil _⟩⟩

theorem readSection_neighbours :
    ∃ s' log, (readSection ⟨0, 0, 0, 0, false⟩ 32).run (.ofBytes neighboursSection) =
      .ok neighbours s' log ∧ s'.position = 32 := by
  obtain ⟨hiff, hok, -⟩ := readSection_partition ⟨0, 0, 0, 0, false⟩ (.ofBytes neighboursSection) 32
    rfl (by decide) rfl
  obtain ⟨subs, s', log, hrun⟩ := hiff.mpr ⟨_, _, neighbours_splits⟩
  have hresult : ((readSection ⟨0, 0, 0, 0, false⟩ 32).run (.ofBytes neighboursSection)).result =
      .ok neighbours := by
    decide +kernel
  rw [hrun] at hresult
  obtain rfl : subs = neighbours := Except.ok.inj hresult
  exact ⟨s', log, hrun, by rw [(hok _ _ _ hrun).1]; rfl⟩

end Section

end Substream

end XamlBinary
