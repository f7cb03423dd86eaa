import XamlBinary.Node.Decode
import XamlBinary.Node.Written
import XamlBinary.Proofs.RuntimeData.Decode

/-!
Node-streams and line-streams are read exactly.  Neither begins with a count:
both go on to the end of their slice.  What is accepted is therefore said of
a whole slice, which must be used up to its last byte.
-/

namespace XamlBinary

open Reader Decoder

/-! ### What is valid in a scope -/

/-- A node that can be read: what it refers to is there, and the substream it defers to has a
number that can be written.  Whether there is such a substream is not known here. -/
def Node.Valid (scope : Scope) (texts : String → Prop) : Node → Prop
  | startObject type => type.Valid scope
  | startProperty property => property.Valid scope
  | text id => id.Packable scope
  | value constant => constant.Valid scope texts
  | namespaceDeclaration shortName xmlNamespace =>
      shortName.Packable scope ∧ xmlNamespace.Valid scope
  | runtimeData data substream => data.Valid scope texts ∧ substream.toNat < 2 ^ 31
  | endObject | endProperty | endOfAttributes | endOfStream | lineInfo _ _
  | lineInfoAbsolute _ _ => True

/-- What reading a node logs. -/
def Node.log (n : Node) : Log := AnyRef.log n.references

namespace PlacedNode

/-- `endOfStream` stands at the end and nowhere else. -/
def EndOnce : List PlacedNode → Prop
  | [] => False
  | p :: ps => if ps = [] then p.node = .endOfStream else p.node ≠ .endOfStream ∧ EndOnce ps

/-- The nodes of a whole node-stream, which can be empty. -/
def Complete (nodes : List PlacedNode) : Prop := nodes = [] ∨ EndOnce nodes

/-- The bytes spell the nodes one after the other, and each node carries the offset at which
its spelling begins, counted on from `offset`. -/
def Spelled (offset : Nat) : List PlacedNode → List UInt8 → Prop
  | [], bytes => bytes = []
  | p :: ps, bytes => ∃ first rest, bytes = first ++ rest ∧ p.offset = UInt32.ofNat offset ∧
      p.node.written.Spells first ∧ Spelled (offset + first.length) ps rest

end PlacedNode

@[mk_iff]
structure LineEntry.Valid (e : LineEntry) : Prop where
  nodeOffset : e.nodeOffset.toNat < 2 ^ 31
  line : e.line.toNat < 2 ^ 31
  column : e.column.toNat < 2 ^ 31

/-- Node offsets never go back, and begin no earlier than `previous`. -/
def LineEntry.AscendFrom (previous : UInt32) : List LineEntry → Prop
  | [] => True
  | e :: es => previous ≤ e.nodeOffset ∧ AscendFrom e.nodeOffset es

/-! ### Single nodes -/

theorem NodeKind.tag_of_ofTag? {t : UInt8} {kind : NodeKind} (h : ofTag? t = some kind) :
    kind.tag = t := by
  rw [ofTag?] at h
  split at h
  · cases h
  · rename_i hzero
    obtain ⟨hlt, hget⟩ := List.getElem?_eq_some_iff.mp h
    have hall : ∀ (i : Nat) (hi : i < all.length), (all[i]).tag.toNat = i + 1 := by decide
    have hpos : t.toNat ≠ 0 := fun h => hzero (UInt8.toNat_inj.mp h)
    apply UInt8.toNat_inj.mp
    rw [← hget, hall _ hlt]
    omega

namespace Decoder

theorem reads_nodeBody (scope : Scope) (kind : NodeKind) :
    Reads (nodeBody scope kind) Node.body
      (fun n => n.kind = kind ∧ n.Valid scope Utf16.Countable) Node.log := by
  cases kind with
  | startObject =>
      refine Reads.map (reads_ref scope .type _) ?_ (fun _ _ => rfl) fun _ _ => ?_
      · intro n
        cases n <;> simp [Node.kind, Node.Valid]
      · exact AnyRef.log_type .. |>.trans (List.append_nil _)
  | endObject =>
      refine Reads.only ?_ rfl rfl
      intro n
      cases n <;> simp [Node.kind, Node.Valid]
  | startProperty =>
      refine Reads.map (reads_ref scope .property _) ?_ (fun _ _ => rfl) fun _ _ => ?_
      · intro n
        cases n <;> simp [Node.kind, Node.Valid]
      · exact AnyRef.log_property .. |>.trans (List.append_nil _)
  | endProperty =>
      refine Reads.only ?_ rfl rfl
      intro n
      cases n <;> simp [Node.kind, Node.Valid]
  | text =>
      refine Reads.map (reads_stringRef scope _) ?_ (fun _ _ => rfl) fun _ _ => rfl
      intro n
      cases n <;> simp [Node.kind, Node.Valid]
  | value =>
      refine Reads.map (reads_constant scope) ?_ (fun _ _ => rfl) fun _ _ => rfl
      intro n
      cases n <;> simp [Node.kind, Node.Valid]
  | namespaceDeclaration =>
      refine Reads.pair (reads_stringRef scope _) (reads_ref scope .xmlNamespace _) ?_
        (fun _ _ => rfl) fun _ _ => ?_
      · intro n
        cases n <;> simp [Node.kind, Node.Valid]
      · exact AnyRef.log_xmlNamespace .. |>.trans (List.append_nil _)
  | endOfAttributes =>
      refine Reads.only ?_ rfl rfl
      intro n
      cases n <;> simp [Node.kind, Node.Valid]
  | endOfStream =>
      refine Reads.only ?_ rfl rfl
      intro n
      cases n <;> simp [Node.kind, Node.Valid]
  | lineInfo =>
      refine Reads.pair (reads_int16 _) (reads_int16 _) ?_ (fun _ _ => rfl) fun _ _ => rfl
      intro n
      cases n <;> simp [Node.kind, Node.Valid]
  | lineInfoAbsolute =>
      refine Reads.pair (reads_uint32 _) (reads_uint32 _) ?_ (fun _ _ => rfl) fun _ _ => rfl
      intro n
      cases n <;> simp [Node.kind, Node.Valid]
  | runtimeData =>
      refine Reads.pair (reads_runtimeData scope) (reads_natural _) ?_ (fun _ _ => rfl)
        fun _ _ => (List.append_nil _).symm
      intro n
      cases n <;> simp [Node.kind, Node.Valid]

theorem reads_node (scope : Scope) :
    Reads (node scope) Node.written (Node.Valid scope Utf16.Countable) Node.log := by
  refine Reads.tagged Node.kind NodeKind.tag (nodeBody scope) (reads_byte _) ?_ ?_
    (fun _ kind _ => reads_nodeBody scope kind) (fun _ _ => NodeKind.tag_of_ofTag?)
    fun n _ => NodeKind.ofTag?_tag n.kind
  · intro start t kind h
    simp only [h]
  · intro start t h
    simp only [h]
    exact ⟨_, rfl⟩

/-! ### Whole node-streams -/

theorem node_ne_nil {n : Node} {bytes : List UInt8} (h : n.written.Spells bytes) :
    bytes ≠ [] := by
  obtain ⟨rest, rfl, -⟩ := Written.spells_fixed_cons_iff.mp h
  exact List.cons_ne_nil _ _

theorem spelled_nil_iff {offset : Nat} {nodes : List PlacedNode} :
    PlacedNode.Spelled offset nodes [] ↔ nodes = [] := by
  cases nodes with
  | nil => exact iff_of_true rfl rfl
  | cons p ps =>
      refine iff_of_false ?_ (List.cons_ne_nil p ps)
      rintro ⟨first, rest, hbytes, -, hfirst, -⟩
      exact node_ne_nil hfirst (List.append_eq_nil_iff.mp hbytes.symm).1

theorem run_node_eq_ok {scope : Scope} {c c' : Cursor} {n : Node} {log : Log} :
    (node scope).run c = .ok n c' log ↔ n.Valid scope Utf16.Countable ∧ log = n.log ∧
      ∃ first, n.written.Spells first ∧ c.rest = first ++ c'.rest ∧
        c'.offset = c.offset + first.length := by
  rw [reads_node, Cursor.spans_iff]

/-- How one more node is read: it ends the slice, or the rest of the slice follows. -/
theorem run_nodesUpTo_succ_eq_ok {scope : Scope} {limit : Nat} {c c' : Cursor}
    {nodes : List PlacedNode} {log : Log} :
    (nodesUpTo scope (limit + 1)).run c = .ok nodes c' log ↔
      ∃ n here first, (node scope).run c = .ok n here first ∧
        (n = .endOfStream ∧ here.rest = [] ∧ nodes = [⟨UInt32.ofNat c.offset, n⟩] ∧
            c' = here ∧ log = first ∨
          n ≠ .endOfStream ∧ here.rest ≠ [] ∧ ∃ rest second,
            (nodesUpTo scope limit).run here = .ok rest c' second ∧
              nodes = ⟨UInt32.ofNat c.offset, n⟩ :: rest ∧ log = first ++ second) := by
  rw [nodesUpTo, run_position_bind, run_bind_eq_ok]
  constructor
  · rintro ⟨n, here, first, second, hnode, hrest, rfl⟩
    rw [run_get_bind] at hrest
    refine ⟨n, here, first, hnode, ?_⟩
    split at hrest
    · rename_i hend
      split at hrest
      · rename_i hempty
        obtain ⟨rfl, rfl, rfl⟩ := run_pure_eq_ok.mp hrest
        exact .inl ⟨hend, List.isEmpty_iff.mp hempty, rfl, rfl, List.append_nil first⟩
      · cases hrest
    · rename_i hmore
      split at hrest
      · cases hrest
      · rename_i hempty
        obtain ⟨rest, m, second', third, hnodes, hpure, rfl⟩ := run_bind_eq_ok.mp hrest
        obtain ⟨rfl, rfl, rfl⟩ := run_pure_eq_ok.mp hpure
        have hrest : here.rest ≠ [] := fun h => hempty (List.isEmpty_iff.mpr h)
        exact .inr ⟨hmore, hrest, rest, second', hnodes, rfl, by rw [List.append_nil]⟩
  · rintro ⟨n, here, first, hnode, ⟨rfl, hempty, rfl, rfl, rfl⟩ |
      ⟨hmore, hrest, rest, second, hnodes, rfl, rfl⟩⟩
    · refine ⟨_, c', log, [], hnode, ?_, (List.append_nil _).symm⟩
      rw [run_get_bind, if_pos rfl, if_pos (List.isEmpty_iff.mpr hempty)]
      rfl
    · refine ⟨n, here, first, second, hnode, ?_, rfl⟩
      have hrest : ¬ here.rest.isEmpty = true := fun h => hrest (List.isEmpty_iff.mp h)
      rw [run_get_bind, if_neg hmore, if_neg hrest, run_bind_ok hnodes]
      simp [Outcome.after]

/-- Nodes up to the end of a slice: the last of them is `endOfStream`, and no other. -/
theorem run_nodesUpTo_eq_ok {scope : Scope} {limit : Nat} {c c' : Cursor}
    {nodes : List PlacedNode} {log : Log} (hlimit : c.rest.length ≤ limit) :
    (nodesUpTo scope limit).run c = .ok nodes c' log ↔
      PlacedNode.EndOnce nodes ∧ (∀ p ∈ nodes, p.node.Valid scope Utf16.Countable) ∧
        PlacedNode.Spelled c.offset nodes c.rest ∧ log = nodes.flatMap (·.node.log) ∧
        c' = ⟨c.offset + c.rest.length, []⟩ := by
  -- a node takes at least its tag, so as many nodes as bytes are always enough
  induction limit generalizing c c' nodes log with
  | zero =>
      have hrest : c.rest = [] := List.length_eq_zero_iff.mp (Nat.le_zero.mp hlimit)
      constructor
      · intro h
        cases h
      · rintro ⟨hend, -, hspelled, -, -⟩
        rw [hrest, spelled_nil_iff] at hspelled
        subst hspelled
        exact hend.elim
  | succ limit ih =>
      rw [run_nodesUpTo_succ_eq_ok]
      constructor
      · rintro ⟨n, ⟨offset, rest⟩, log', hnode, h⟩
        obtain ⟨hvalid, rfl, first, hfirst, hbytes, hoffset⟩ := run_node_eq_ok.mp hnode
        dsimp only at h hbytes hoffset
        obtain ⟨rfl, rfl, rfl, rfl, rfl⟩ | ⟨hmore, hrest, ps, second, hnodes, rfl, rfl⟩ := h
        · refine ⟨rfl, by simpa using hvalid, ⟨first, [], hbytes, rfl, hfirst, rfl⟩, ?_, ?_⟩
          · simp
          · rw [hbytes, hoffset, List.append_nil]
        · have hpos := List.length_pos_iff.mpr (node_ne_nil hfirst)
          rw [hbytes, List.length_append] at hlimit
          obtain ⟨hend, hvalids, hspelled, rfl, rfl⟩ :=
            (ih (c := ⟨offset, rest⟩) (by dsimp only; omega)).mp hnodes
          have hps : ps ≠ [] := by
            rintro rfl
            exact hend
          refine ⟨?_, List.forall_mem_cons.mpr ⟨hvalid, hvalids⟩,
            ⟨first, rest, hbytes, rfl, hfirst, hoffset ▸ hspelled⟩, by rw [List.flatMap_cons], ?_⟩
          · rw [PlacedNode.EndOnce, if_neg hps]
            exact ⟨hmore, hend⟩
          · rw [hbytes, hoffset, List.length_append, Nat.add_assoc]
      · rintro ⟨hend, hvalids, hspelled, rfl, rfl⟩
        cases nodes with
        | nil => exact hend.elim
        | cons p ps =>
            obtain ⟨hvalid, hvalids⟩ := List.forall_mem_cons.mp hvalids
            obtain ⟨first, rest, hbytes, hplace, hfirst, hspelled⟩ := hspelled
            have hpos := List.length_pos_iff.mpr (node_ne_nil hfirst)
            have hp : p = ⟨UInt32.ofNat c.offset, p.node⟩ := by rw [← hplace]
            rw [hbytes, List.length_append] at hlimit ⊢
            refine ⟨p.node, ⟨c.offset + first.length, rest⟩, p.node.log,
              run_node_eq_ok.mpr ⟨hvalid, rfl, first, hfirst, hbytes, rfl⟩, ?_⟩
            -- the node is the last one or it is not; `endOfStream` tells the reader which
            by_cases hps : ps = []
            · subst hps
              obtain rfl : rest = [] := hspelled
              refine .inl ⟨hend, rfl, by rw [← hp], ?_, by simp⟩
              rw [List.length_nil, Nat.add_zero]
            · rw [PlacedNode.EndOnce, if_neg hps] at hend
              refine .inr ⟨hend.1, ?_, ps, ps.flatMap (·.node.log), ?_, by rw [← hp], ?_⟩
              · rintro rfl
                exact hps (spelled_nil_iff.mp hspelled)
              · rw [ih (by dsimp only; omega)]
                exact ⟨hend.2, hvalids, hspelled, rfl, by rw [Nat.add_assoc]⟩
              · exact List.flatMap_cons

/-- A node-stream is accepted when the slice spells a complete list of valid nodes, which are
then the result. -/
theorem run_nodes_eq_ok {scope : Scope} {bytes : List UInt8} {c' : Cursor}
    {ns : List PlacedNode} {log : Log} :
    (nodes scope).run (Cursor.start bytes) = .ok ns c' log ↔
      PlacedNode.Complete ns ∧ (∀ p ∈ ns, p.node.Valid scope Utf16.Countable) ∧
        PlacedNode.Spelled 0 ns bytes ∧ log = ns.flatMap (·.node.log) ∧ c' = ⟨bytes.length, []⟩ := by
  rw [nodes, run_get_bind]
  split
  · rename_i hempty
    obtain rfl : bytes = [] := List.isEmpty_iff.mp hempty
    rw [run_pure_eq_ok]
    constructor
    · rintro ⟨rfl, rfl, rfl⟩
      exact ⟨.inl rfl, by simp, rfl, rfl, rfl⟩
    · rintro ⟨-, -, hspelled, rfl, rfl⟩
      obtain rfl := spelled_nil_iff.mp hspelled
      exact ⟨rfl, rfl, rfl⟩
  · rename_i hmore
    have hstart : ⟨(Cursor.start bytes).offset + bytes.length, []⟩ = Cursor.mk bytes.length [] := by
      rw [Cursor.start, Nat.zero_add]
    rw [run_nodesUpTo_eq_ok (Nat.le_refl _), ← hstart]
    apply and_congr_left
    rintro ⟨-, hspelled, -, -⟩
    refine ⟨.inr, ?_⟩
    rintro (rfl | hend)
    · exact absurd (List.isEmpty_iff.mpr hspelled) hmore
    · exact hend

/-! ### Whole line-streams -/

theorem reads_lineEntry :
    Reads lineEntry LineEntry.written LineEntry.Valid fun _ => [] := by
  refine Reads.record (Reads.field LineEntry.nodeOffset (reads_natural _) fun nodeOffset =>
    Reads.field LineEntry.line (reads_natural _) fun line =>
    Reads.field LineEntry.column (reads_natural _) fun column =>
    Reads.made ⟨rfl, rfl, rfl, trivial⟩ ?_) ?_ ?_ fun _ => rfl
  · rintro e ⟨rfl, rfl, rfl, -⟩
    rfl
  · intro e
    simp [LineEntry.valid_iff]
  · intro e
    simp [LineEntry.written]

theorem lineEntry_ne_nil {e : LineEntry} {bytes : List UInt8} (h : e.written.Spells bytes) :
    bytes ≠ [] := by
  rw [LineEntry.written, List.append_assoc] at h
  obtain ⟨spelling, rest, rfl, hspelling, -⟩ := Written.spells_varint_cons_iff.mp h
  exact List.append_ne_nil_of_left_ne_nil hspelling.closed.ne_nil rest

theorem lineEntries_spell_nil_iff {es : List LineEntry} :
    Written.Spells (es.flatMap LineEntry.written) [] ↔ es = [] := by
  cases es with
  | nil => exact iff_of_true .nil rfl
  | cons e es =>
      refine iff_of_false ?_ (List.cons_ne_nil e es)
      intro h
      rw [List.flatMap_cons] at h
      obtain ⟨first, rest, hbytes, hfirst, -⟩ := Written.spells_append_iff.mp h
      exact lineEntry_ne_nil hfirst (List.append_eq_nil_iff.mp hbytes.symm).1

/-- At the end of the slice there are no entries left. -/
theorem run_noEntries_eq_ok {previous : UInt32} {c c' : Cursor} {es : List LineEntry}
    {log : Log} (hempty : c.rest = []) :
    (pure [] : Decoder (List LineEntry)).run c = .ok es c' log ↔
      LineEntry.AscendFrom previous es ∧ (∀ e ∈ es, e.Valid) ∧
        Written.Spells (es.flatMap LineEntry.written) c.rest ∧ log = [] ∧
        c' = ⟨c.offset + c.rest.length, []⟩ := by
  obtain ⟨offset, rest⟩ := c
  obtain rfl : rest = [] := hempty
  rw [run_pure_eq_ok, lineEntries_spell_nil_iff]
  constructor
  · rintro ⟨rfl, rfl, rfl⟩
    exact ⟨trivial, by simp, rfl, rfl, rfl⟩
  · rintro ⟨-, -, rfl, rfl, rfl⟩
    exact ⟨rfl, rfl, rfl⟩

theorem run_lineEntriesUpTo_eq_ok {previous : UInt32} {limit : Nat} {c c' : Cursor}
    {es : List LineEntry} {log : Log} (hlimit : c.rest.length ≤ limit) :
    (lineEntriesUpTo previous limit).run c = .ok es c' log ↔
      LineEntry.AscendFrom previous es ∧ (∀ e ∈ es, e.Valid) ∧
        Written.Spells (es.flatMap LineEntry.written) c.rest ∧ log = [] ∧
        c' = ⟨c.offset + c.rest.length, []⟩ := by
  -- as for nodes, an entry takes at least one byte
  induction limit generalizing previous c c' es log with
  | zero =>
      exact run_noEntries_eq_ok (List.length_eq_zero_iff.mp (Nat.le_zero.mp hlimit))
  | succ limit ih =>
      rw [lineEntriesUpTo, run_get_bind]
      split
      · rename_i hempty
        exact run_noEntries_eq_ok (List.isEmpty_iff.mp hempty)
      · rename_i hmore
        rw [run_bind_eq_ok]
        constructor
        · rintro ⟨e, ⟨offset, rest⟩, first, second, hentry, hrest, rfl⟩
          obtain ⟨hvalid, rfl, hspan⟩ := (reads_lineEntry ..).mp hentry
          obtain ⟨bytes, hspells, hbytes, hoffset⟩ := Cursor.spans_iff.mp hspan
          dsimp only at hbytes hoffset
          split at hrest
          · cases hrest
          · rename_i horder
            obtain ⟨es, m, second, third, hentries, hpure, rfl⟩ := run_bind_eq_ok.mp hrest
            obtain ⟨rfl, rfl, rfl⟩ := run_pure_eq_ok.mp hpure
            have hpos := List.length_pos_iff.mpr (lineEntry_ne_nil hspells)
            rw [hbytes, List.length_append] at hlimit
            obtain ⟨hascend, hvalids, hspelled, rfl, rfl⟩ :=
              (ih (c := ⟨offset, rest⟩) (by dsimp only; omega)).mp hentries
            refine ⟨⟨UInt32.not_lt.mp horder, hascend⟩, List.forall_mem_cons.mpr ⟨hvalid, hvalids⟩,
              ?_, rfl, ?_⟩
            · rw [List.flatMap_cons, hbytes]
              exact hspells.append hspelled
            · rw [hbytes, hoffset, List.length_append, Nat.add_assoc]
        · rintro ⟨hascend, hvalids, hspelled, rfl, rfl⟩
          cases es with
          | nil =>
              exact absurd (List.isEmpty_iff.mpr (Written.spells_nil_iff.mp hspelled)) hmore
          | cons e es =>
              obtain ⟨hvalid, hvalids⟩ := List.forall_mem_cons.mp hvalids
              obtain ⟨horder, hascend⟩ := hascend
              rw [List.flatMap_cons] at hspelled
              obtain ⟨bytes, rest, hbytes, hspells, hspelled⟩ :=
                Written.spells_append_iff.mp hspelled
              have hpos := List.length_pos_iff.mpr (lineEntry_ne_nil hspells)
              rw [hbytes, List.length_append] at hlimit ⊢
              have hentry := (reads_lineEntry c e ⟨c.offset + bytes.length, rest⟩ []).mpr
                ⟨hvalid, rfl, Cursor.spans_iff.mpr ⟨bytes, hspells, hbytes, rfl⟩⟩
              have hentries : (lineEntriesUpTo e.nodeOffset limit).run
                  ⟨c.offset + bytes.length, rest⟩ = .ok es _ [] :=
                (ih (by dsimp only; omega)).mpr ⟨hascend, hvalids, hspelled, rfl, rfl⟩
              refine ⟨e, _, [], [], hentry, ?_, rfl⟩
              rw [if_neg (UInt32.not_lt.mpr horder), run_bind_ok hentries, Outcome.after_nil,
                run_pure, Nat.add_assoc]

/-- A line-stream is accepted when the slice spells valid entries in the order of their
nodes, which are then the result. -/
theorem run_lineEntries_eq_ok {bytes : List UInt8} {c' : Cursor} {es : List LineEntry}
    {log : Log} :
    lineEntries.run (Cursor.start bytes) = .ok es c' log ↔
      LineEntry.AscendFrom 0 es ∧ (∀ e ∈ es, e.Valid) ∧
        Written.Spells (es.flatMap LineEntry.written) bytes ∧ log = [] ∧
        c' = ⟨bytes.length, []⟩ := by
  have hstart : ⟨(Cursor.start bytes).offset + bytes.length, []⟩ = Cursor.mk bytes.length [] := by
    rw [Cursor.start, Nat.zero_add]
  rw [lineEntries, run_get_bind,
    run_lineEntriesUpTo_eq_ok (Nat.le_refl _), ← hstart]
  exact Iff.rfl

end Decoder

end XamlBinary
