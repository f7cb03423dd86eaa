import XamlBinary.Proofs.File.Located

/-!
The parse of plain bytes ends with a fault that points into them.  What is
left, behind the sections, is the check of the deferrals: their places are
computed from the sizes of the sections, and the nodes stand there.
-/

namespace XamlBinary

open Reader

/-- A node stands in its slice at the offset that it carries. -/
theorem PlacedNode.Spelled.exists_of_mem {offset : Nat} {nodes : List PlacedNode}
    {bytes : List UInt8} (h : Spelled offset nodes bytes) (hlength : offset + bytes.length < 2 ^ 32)
    {p : PlacedNode} (hp : p ∈ nodes) :
    ∃ before spelling, p.node.written.Spells spelling ∧ before ++ spelling <+: bytes ∧
      p.offset.toNat = offset + before.length := by
  induction nodes generalizing offset bytes with
  | nil => cases hp
  | cons first later ih =>
      obtain ⟨spelling, rest, rfl, hoffset, hspells, hrest⟩ := h
      rw [List.length_append] at hlength
      cases hp with
      | head =>
          refine ⟨[], spelling, hspells, List.prefix_append .., ?_⟩
          rw [hoffset, UInt32.toNat_ofNat_of_lt' (by simp [UInt32.size]; omega)]
          rfl
      | tail _ hp =>
          obtain ⟨before, spelling', hspells', hprefix, hplace⟩ := ih hrest (by omega) hp
          refine ⟨spelling ++ before, spelling', hspells', ?_, ?_⟩
          · rw [List.append_assoc]
            exact (List.prefix_append_right_inj spelling).mpr hprefix
          · rw [List.length_append]
            omega

namespace Substream

/-- The nodes of a substream stand in the body where its entry tells. -/
theorem Tiled.exists_of_mem {scope : Scope} {bodySize start : Nat} {subs : List Substream}
    {bytes : List UInt8} (h : Tiled scope bodySize start subs bytes)
    (hlength : start + bytes.length < 2 ^ 32) {sub : Substream} (hsub : sub ∈ subs)
    {p : PlacedNode} (hp : p ∈ sub.nodes) :
    ∃ before spelling, p.node.written.Spells spelling ∧ before ++ spelling <+: bytes ∧
      sub.entry.nodeOffset.toNat + p.offset.toNat = start + before.length := by
  induction subs generalizing start bytes with
  | nil => cases hsub
  | cons first later ih =>
      obtain ⟨nodeBytes, lineBytes, rest, rfl, hnode, -, -, ⟨c, log, hnodes⟩, -, hrest⟩ := h
      rw [List.length_append, List.length_append] at hlength
      cases hsub with
      | head =>
          obtain ⟨-, -, hspelled, -, -⟩ := Decoder.run_nodes_eq_ok.mp hnodes
          obtain ⟨before, spelling, hspells, hprefix, hplace⟩ :=
            hspelled.exists_of_mem (by omega) hp
          exact ⟨before, spelling, hspells, hprefix.trans (List.prefix_append ..), by omega⟩
      | tail _ hsub =>
          obtain ⟨before, spelling, hspells, hprefix, hplace⟩ := ih hrest (by omega) hsub
          refine ⟨nodeBytes ++ (lineBytes ++ before), spelling, hspells, ?_, ?_⟩
          · rw [List.append_assoc, List.append_assoc]
            exact (List.prefix_append_right_inj _).mpr ((List.prefix_append_right_inj _).mpr hprefix)
          · rw [List.length_append, List.length_append]
            omega

end Substream

namespace File

variable {bytes : List UInt8}

/-- The place of a deferral is that of the node which defers. -/
theorem standsAt_of_mem_deferrals {header : Header} {subs : List Substream} {scope : Scope}
    {body : List UInt8} (htiled : Substream.Tiled scope body.length 0 subs body)
    (hlength : body.length < 2 ^ 32) (hbody : body <+: bytes.drop (bodyStart header subs))
    {d : Deferral} (hd : d ∈ deferrals header subs) {count : Nat}
    (hcount : count ≤ d.substream.toNat) :
    d.offset ≤ bytes.length ∧
      (DataFault.missingSubstream d.substream count).StandsAt (bytes.drop d.offset) := by
  obtain ⟨sub, hsub, hd⟩ := List.mem_flatMap.mp hd
  obtain ⟨p, hp, hdefers⟩ := List.mem_filterMap.mp hd
  obtain ⟨before, spelling, hspells, hprefix, hplace⟩ := htiled.exists_of_mem (by omega) hsub hp
  cases hnode : p.node with
  | runtimeData data index =>
      rw [hnode] at hdefers hspells
      cases hdefers
      have hoffset : bodyStart header subs + sub.entry.nodeOffset.toNat + p.offset.toNat =
          bodyStart header subs + before.length := by omega
      obtain ⟨rest, hrest, -⟩ := Written.spells_fixed_cons_iff.mp hspells
      obtain ⟨more, hmore⟩ := hprefix.trans hbody
      have hends := congrArg List.length hmore
      rw [hrest, List.length_append, List.length_append, List.length_append, List.length_singleton,
        List.length_drop] at hends
      have hahead : bytes.drop (bodyStart header subs + before.length) = spelling ++ more := by
        rw [← List.drop_drop, ← hmore, List.append_assoc, List.drop_left]
      have hle : bodyStart header subs + before.length ≤ bytes.length := by omega
      rw [hoffset, hahead]
      refine ⟨hle, ?_, hcount, data, spelling, hspells, List.prefix_append ..⟩
      rw [hrest]
      rfl
  | _ =>
      rw [hnode] at hdefers
      cases hdefers

theorem triple_checkDeferrals (scope : Scope) (header : Header) (subs : List Substream) :
    Triple (fun s => (∃ body, Substream.Tiled scope body.length 0 subs body ∧
        body.length < 2 ^ 32 ∧ body <+: bytes.drop
          (header.size + header.metadataSize.toNat + (4 + 8 * subs.length))) ∧ s.On bytes)
      (checkDeferrals header subs) (fun _ s => s.On bytes)
      fun fault s => fault.InSlice bytes ∧ s.On bytes := by
  refine Triple.assume fun ⟨body, htiled, hlength, hbody⟩ => ?_
  rw [← Nat.add_assoc, ← bodyStart] at hbody
  rw [checkDeferrals]
  split
  · rename_i d hfind
    have hmissing := List.find?_some hfind
    rw [decide_eq_true_iff] at hmissing
    exact Keeps.fail (standsAt_of_mem_deferrals htiled hlength hbody
      (List.mem_of_find?_eq_some hfind) hmissing)
  · exact Keeps.pure ()

theorem triple_readSections (settings : Settings) :
    Triple (fun s => s.IsPlain ∧ s.bytes = bytes) (readSections settings) (fun _ s => s.On bytes)
      fun fault s => fault.PointsInto bytes ∧ s.On bytes := by
  refine (ByteStream.triple_goTo _).bind fun _ => (Header.triple_read settings.layout).bind fun header => ?_
  refine (Triple.report _).bind fun _ => ?_
  refine (Metadata.triple_read _ _).pointsInto.bind fun metadata => (Triple.report _).bind fun _ => ?_
  refine (Substream.triple_readSection _ _ _).pointsInto.bind fun subs => ?_
  refine (Triple.report _).bind fun _ => ?_
  refine (triple_checkDeferrals _ header subs).pointsInto.bind fun _ => ?_
  exact (Triple.report _).bind fun _ => fun s hs => hs

/-- The fault with which the parse of a plain stream ends, wherever the stream stood, lies in
its bytes.  Where it is about a value that was refused, that value stands at its place; where it
is about a substream that is missing, the node that asks for it does. -/
theorem read_pointsInto (settings : Settings) (s : ByteStream) (hplain : s.IsPlain)
    (fault : Fault) (hfault : ((read settings).run s).result = .error fault) :
    fault.PointsInto s.bytes := by
  have hseek := hplain.2.2
  rw [read, ByteStream.result_keepingPosition (by simp [hseek])] at hfault
  obtain ⟨_, hpoints, -⟩ :=
    (triple_readSections settings).exists_of_result ⟨hplain, rfl⟩ hfault
  exact hpoints

/-- A file of which the only node but the last defers to substream five. -/
def adrift : List UInt8 :=
  [0x58, 0x42, 0x46, 0, 24, 0, 0, 0, 17, 0, 0, 0] ++ List.replicate 24 0 ++
    [1, 0, 0, 0, 0, 0, 0, 0, 5, 0, 0, 0, 0x0C, 2, 0, 5, 0x09]

/-- The fault is found at the tag of that node, behind the table. -/
theorem adrift_pointsInto :
    ((read {}).run (.ofBytes adrift)).result = .error (.malformed 48 (.missingSubstream 5 1)) ∧
      (Fault.malformed 48 (.missingSubstream 5 1)).PointsInto adrift := by
  have hfault : ((read {}).run (.ofBytes adrift)).result =
      .error (.malformed 48 (.missingSubstream 5 1)) := by decide +kernel
  exact ⟨hfault, read_pointsInto {} (.ofBytes adrift) ⟨rfl, rfl, rfl⟩ _ hfault⟩

end File

end XamlBinary
