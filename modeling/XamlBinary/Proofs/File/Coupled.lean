import XamlBinary.File.Read
import XamlBinary.Proofs.ByteStream.Coupled

/-!
Two parses side by side.  Over a sound coupling of streams they are coupled,
stage by stage.  The settings of the two may differ where slices of nodes are
decoded, as long as the coupling covers what follows from it.
-/

namespace XamlBinary

open Reader

variable {K : Coupling ByteStream ByteStream}

namespace Header

theorem coupled_readMagic (hK : K.Sound) : Coupled K readMagic readMagic := by
  intro s t h
  simp only [run, readMagic, ByteSource.take]
  rcases hK.pull 4 h with ⟨bytes, s', hs, hescape⟩ | ⟨bytes, shortage, s', t', hs, ht, h'⟩
  · rw [hs]
    exact .escape (hescape ..)
  · rw [hs, ht]
    cases shortage with
    | none =>
        by_cases hmagic : bytes = magic
        · simpa only [hmagic, if_true] using .ok h' rfl
        · simpa only [hmagic, if_false] using .fail (hK.refl _) h' rfl
    | some shortage =>
        cases shortage with
        | endOfBytes => exact .fail (hK.refl _) h' rfl
        | stopped effect => cases effect <;> exact .fail (hK.refl _) h' rfl

theorem coupled_readVersion (hK : K.Sound) : Coupled K readVersion readVersion :=
  hK.position.bind fun _ => (hK.uint32 _).bind fun _ => (hK.uint32 _).bind fun _ =>
    .ite (fun _ => .pure _) fun _ => .fail (hK.refl _)

theorem coupled_read (hK : K.Sound) (layout : HeaderLayout) :
    Coupled K (read layout) (read layout) := by
  refine (coupled_readMagic hK).bind fun _ => (hK.measure 4).bind fun length => ?_
  refine .ite (fun _ => .fail (hK.refl _)) fun _ => ?_
  refine (hK.uint32 _).bind fun metadataSize => (hK.uint32 _).bind fun nodeStreamSize => ?_
  cases versioned? layout length (sectionsSize metadataSize nodeStreamSize) with
  | none => exact .fail (hK.refl _)
  | some hasVersion =>
      have hrest (version : Option Version) : Coupled K
          (note (.header ⟨metadataSize, nodeStreamSize, version⟩) >>= fun _ =>
            pure (Header.mk metadataSize nodeStreamSize version))
          (note (.header ⟨metadataSize, nodeStreamSize, version⟩) >>= fun _ =>
            pure (Header.mk metadataSize nodeStreamSize version)) :=
        (Coupled.note _ _).bind fun _ => .pure _
      exact .ite (fun _ => ((coupled_readVersion hK).map some).bind hrest) fun _ =>
        (Coupled.pure none).bind hrest

end Header

theorem Metadata.coupled_read (hK : K.Sound) (size : UInt32) :
    Coupled K (Metadata.read size) (Metadata.read size) :=
  hK.position.bind fun _ => (hK.block _ _).bind fun _ => (Coupled.note _ _).bind fun _ =>
    .within hK.refl _ _ _

theorem SubstreamEntry.coupled_read (hK : K.Sound) :
    Coupled K SubstreamEntry.read SubstreamEntry.read :=
  (hK.uint32 _).bind fun _ => (hK.uint32 _).bind fun _ => .pure _

namespace Substream

/-- Slices of nodes may be decoded differently, as far as the coupling covers it. -/
def CoupledNodes (K : Coupling ByteStream ByteStream) (scope scope' : Scope) : Prop :=
  ∀ base slice, Coupled K (within base slice (Decoder.nodes scope) : Reader ByteStream _)
    (within base slice (Decoder.nodes scope'))

variable {scope scope' : Scope}

theorem coupled_readParts (hK : K.Sound) (hnodes : CoupledNodes K scope scope')
    (index lineEnd : Nat) (entry : SubstreamEntry) :
    Coupled K (readParts scope index lineEnd entry) (readParts scope' index lineEnd entry) := by
  refine hK.position.bind fun start => (Coupled.note _ _).bind fun _ => ?_
  refine (hK.block _ _).bind fun nodeBytes => (hnodes start nodeBytes).bind fun nodes => ?_
  exact (hK.block _ _).bind fun _ => (Coupled.within hK.refl _ _ _).bind fun _ => .pure _

theorem coupled_readEntry (hK : K.Sound) (hnodes : CoupledNodes K scope scope')
    (bodyStart bodySize index : Nat) (entry : SubstreamEntry) (later : List SubstreamEntry) :
    Coupled K (readEntry scope bodyStart bodySize index entry later)
      (readEntry scope' bodyStart bodySize index entry later) := by
  refine hK.position.bind fun start => .ite (fun _ => .fail (hK.refl _)) fun _ => ?_
  refine .ite (fun _ => .fail (hK.refl _)) fun _ => .ite (fun _ => .fail (hK.refl _)) fun _ => ?_
  exact coupled_readParts hK hnodes index _ entry

theorem coupled_readAll (hK : K.Sound) (hnodes : CoupledNodes K scope scope')
    (bodyStart bodySize index : Nat) (table : List SubstreamEntry) :
    Coupled K (readAll scope bodyStart bodySize index table)
      (readAll scope' bodyStart bodySize index table) := by
  induction table generalizing index with
  | nil => exact .pure []
  | cons entry later ih =>
      have hentry := coupled_readEntry hK hnodes bodyStart bodySize index entry later
      exact hentry.bind fun _ => (ih (index + 1)).bind fun _ => .pure _

theorem coupled_readSection (hK : K.Sound) (hnodes : CoupledNodes K scope scope')
    (size : UInt32) : Coupled K (readSection scope size) (readSection scope' size) := by
  refine hK.position.bind fun sectionStart =>
    (hK.table _ (SubstreamEntry.coupled_read hK)).bind fun table => hK.position.bind fun here => ?_
  refine .ite (fun _ => .fail (hK.refl _)) fun _ => (Coupled.note _ _).bind fun _ => ?_
  refine (coupled_readAll hK hnodes _ _ _ _).bind fun substreams => hK.position.bind fun _ => ?_
  exact .ite (fun _ => .fail (hK.refl _)) fun _ => .pure _

end Substream

namespace File

theorem coupled_checkDeferrals (hK : K.Sound) (header : Header) (substreams : List Substream) :
    Coupled K (checkDeferrals header substreams) (checkDeferrals header substreams) := by
  rw [checkDeferrals]
  split
  · exact .fail (hK.refl _)
  · exact .pure ()

variable {settings settings' : Settings}

theorem coupled_readSections (hK : K.Sound) (hlayout : settings.layout = settings'.layout)
    (hnodes : ∀ m : Metadata, Substream.CoupledNodes K (m.scope settings.strict)
      (m.scope settings'.strict)) :
    Coupled K (readSections settings) (readSections settings') := by
  have hheader := Header.coupled_read hK settings.layout
  rw [readSections, readSections, ← hlayout]
  refine (hK.goTo _ _).bind fun _ => hheader.bind fun header => (Coupled.note _ _).bind fun _ => ?_
  refine (Metadata.coupled_read hK _).bind fun metadata => (Coupled.note _ _).bind fun _ => ?_
  refine (Substream.coupled_readSection hK (hnodes metadata) _).bind fun substreams => ?_
  refine (Coupled.note _ _).bind fun _ => (coupled_checkDeferrals hK _ _).bind fun _ => ?_
  exact (Coupled.note _ _).bind fun _ => .pure _

theorem coupled_read (hK : K.Sound) (hlayout : settings.layout = settings'.layout)
    (hnodes : ∀ m : Metadata, Substream.CoupledNodes K (m.scope settings.strict)
      (m.scope settings'.strict)) : Coupled K (read settings) (read settings') :=
  hK.keepingPosition (coupled_readSections hK hlayout hnodes)

end File

end XamlBinary
