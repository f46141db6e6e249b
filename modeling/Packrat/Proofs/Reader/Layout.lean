import Packrat.Proofs.Builder.Extents
import Packrat.Proofs.Reader.Spans

/-! # Where productions are read

A production lies between the place where its name begins and the place behind what ends it. That is behind its
expression too: signs without an operand are passed over before the `;` or the next production.
-/

namespace Packrat

namespace Read

variable {text : List Char} {c d : Cursor} {spans : List Span}

/-- Between two productions, behind those in the given spans. -/
structure Between (text : List Char) (c : Cursor) (spans : List Span) : Prop where
  place : c.toPlace.On text
  shelved : c.builder.Shelved (Position.On text) (Lost c.problems) spans
  behind : ∀ s ∈ spans, s.stop.offset ≤ c.position.offset

theorem Between.onward (between : Between text c spans) (proceeds : Proceeds c d) (same : d.builder = c.builder) :
    Between text d spans where
  place := proceeds.on between.place
  shelved := same ▸ between.shelved.mono fun _ lost => lost.mono proceeds.problems
  behind s member := Nat.le_trans (between.behind s member) proceeds.offset_le

theorem Between.spaced (between : Between text c spans) : Leads spacing c fun _ d => Between text d spans :=
  (leads_spaced c).mono fun _ _ skipped => between.onward skipped.proceeds.from skipped.builder

/-- A token that ends at the place or in the signs ahead is passed over where a production ends. -/
theorem Rests.leads_terminate (rests : Rests c) (same : d.toPlace = c.toPlace) :
    Leads terminate d fun _ d' => Proceeds d d' ∧ d'.builder = d.builder ∧ c.tokenEnd.offset ≤ d'.position.offset := by
  intro u d' ran
  have proceeds := determined_terminate.proceeds ran
  refine ⟨proceeds, ((total_terminate d).leads u d' ran).builder, ?_⟩
  rcases rests with settled | overrun
  · have place : d.position = c.position := congrArg Place.position same
    exact Nat.le_trans settled (place ▸ proceeds.offset_le)
  · have signs : Signs d.toPlace c.tokenEnd := same ▸ overrun.signs
    exact signs.leads_terminate u d' ran

theorem Between.production (between : Between text c spans) :
    Leads production c fun _ d => ∃ s, Between text d (spans ++ [s]) := by
  refine leads_here.mpr ?_
  refine (tries_identifier.total.quiet determined_identifier c).bind fun name c₁ ⟨proceeds₁, same₁⟩ => ?_
  refine (leads_spaced c₁).bind fun _ c₂ skipped => ?_
  refine (total_assignment.quiet determined_assignment c₂).bind fun sign c₃ ⟨proceeds₃, same₃⟩ => ?_
  refine (leads_spaced c₃).bind fun _ c₄ skipped' => ?_
  have proceeds₃ : Proceeds c c₃ := (proceeds₁.trans skipped.proceeds.from).trans proceeds₃
  have proceeds₄ : Proceeds c c₄ := proceeds₃.trans skipped'.proceeds.from
  have same₄ : c₄.builder = c.builder := skipped'.builder.trans (same₃.trans (skipped.builder.trans same₁))
  have between₄ := between.onward proceeds₄ same₄
  refine leads_build fun b₁ started => ?_
  obtain ⟨owner, current, sound, nodes, -⟩ := between₄.shelved.begin started
  have standing : Standing text { c₄ with builder := b₁ } := by
    refine ⟨between₄.place, ?_, sound, nodes ▸ between₄.shelved.laid, owner, current⟩
    change c₄.tokenEnd.offset ≤ _
    rw [skipped'.tokenEnd]
    exact skipped'.proceeds.offset_le
  rw [leads_steps]
  refine (standing.body (framed_expression text _)).bind fun found c₅ ⟨inside, rests, ss, single, lays, ends⟩ => ?_
  have inside : Proceeds c₄ c₅ := inside.from
  have finish {c₆ : Cursor} (same : c₆.toPlace = c₅.toPlace) (built : c₆.builder = c₅.builder)
      (proceeds : Proceeds c₅ c₆) : Leads (do
        terminate
        build (.setProductionSpan ⟨c.position, ← here⟩)
        build .endProduction) c₆ fun _ d => ∃ s, Between text d (spans ++ [s]) := by
    refine (rests.leads_terminate same).bind fun _ c₇ ⟨passes, built', reached⟩ => ?_
    rw [leads_here]
    refine leads_build fun b₃ spanned => leads_last.mpr (leads_build fun b₄ ended => (leads_pure ()).mpr ?_)
    have behind : Proceeds c₅ c₇ := proceeds.trans passes
    have all : Proceeds c c₇ := (proceeds₄.trans inside).trans behind
    have shelved := between₄.shelved.mono fun _ lost => lost.mono (inside.trans behind).problems
    rw [built', built] at spanned
    refine ⟨⟨c.position, c₇.position⟩, all.on between.place, ?_, fun s member => ?_⟩
    · have lays := lays.mono fun _ lost => lost.mono behind.problems
      refine shelved.finish started lays single spanned ended (on_position between.place)
        (on_position (all.on between.place)) all.offset_le (fun t member => ?_) between.behind
      obtain ⟨begins, last⟩ := ends t member
      rw [last]
      exact ⟨Nat.le_trans proceeds₄.offset_le begins, reached⟩
    · rcases List.mem_append.mp member with member | member
      · exact Nat.le_trans (between.behind s member) all.offset_le
      · rw [List.mem_singleton.mp member]
  rw [leads_peek]
  split
  · rw [leads_here, leads_report]
    exact finish rfl rfl (.reported c₅ _)
  · exact finish rfl rfl (.refl c₅)

theorem Between.productions (between : Between text c spans) (limit : Nat) :
    Leads (productions limit) c fun _ d => ∃ spans, Between text d spans := by
  induction limit generalizing c spans with
  | zero => exact leads_throw _
  | succ limit ih =>
    refine leads_atEnd.mpr ?_
    cases here : c.rest with
    | nil => exact (leads_pure _).mpr ⟨spans, between⟩
    | cons first rest =>
      obtain ⟨head, ran, -⟩ := atProductionHead_ran c
      rw [List.isEmpty_cons, if_neg Bool.false_ne_true]
      refine leads_behind ran ?_
      cases head with
      | true =>
        rw [if_pos rfl]
        refine between.production.bind fun _ c₁ ⟨s, between₁⟩ => between₁.spaced.bind fun _ c₂ between₂ => ?_
        exact (ih between₂).bind fun count c₃ found => (leads_pure _).mpr found
      | false =>
        rw [if_neg Bool.false_ne_true]
        refine (leads_ran garbage c).bind fun _ c₁ passed => ?_
        obtain ⟨onward, -⟩ := (ends_garbage (by simp [here]) ran).leads _ _ passed
        have between₁ := between.onward (determined_garbage.proceeds passed) onward.builder
        exact between₁.spaced.bind fun _ c₂ between₂ => ih between₂

theorem Between.grammar (between : Between text c spans) :
    Leads grammar c fun _ d => ∃ spans, Between text d spans := by
  refine between.spaced.bind fun _ c₁ between₁ => ?_
  rw [leads_steps]
  refine (between₁.productions _).bind fun count c₂ ⟨spans, between₂⟩ => ?_
  split
  · rw [leads_here]
    exact leads_last.mpr (leads_report.mpr ((leads_pure ()).mpr ⟨spans, between₂.onward (.reported c₂ _) rfl⟩))
  · exact (leads_pure ()).mpr ⟨spans, between₂⟩

/-- At the beginning of a text there is nothing that could lie anywhere. -/
theorem between_ofString (text : String) (actions : List String) :
    Between (Newline.normalize text.toList)
      (Cursor.ofString text ((Builder.empty.withActions actions).setSource text)) [] where
  place := ⟨[], rfl, rfl⟩
  shelved := ⟨(Builder.outlines_empty actions text).balanced.sound, nofun, rfl, .nil, .nil⟩
  behind := nofun

end Read

end Packrat
