import Packrat.Proofs.Reader.Strings
import Packrat.Proofs.Reader.Surroundings

/-! # Tokens in surroundings

Blanks, names, strings, intervals, sets and numbers are read in a longer text as they are read alone. Each of these
readers follows the rules for the steps it is made of. What has to be shown is that a comment has been closed and an
escape has been told within the text, and that the loops stop for a reason in the text.
-/

namespace Packrat

namespace Read

open Documented

variable {k : Setting} {m m' : Mode}

theorem commentBody_append {s : List Char} (closed : (commentBody s).2 = true) (more : List Char) :
    commentBody (s ++ more) = commentBody s := by
  rcases commentBody_spec s with ⟨opened, -⟩ | ⟨body, after, rfl, inside, same⟩
  · rw [opened] at closed
    cases closed
  · rw [same, List.append_assoc]
    exact commentBody_closed inside (after ++ more)

theorem agrees_blockComment (reporting : Bool) :
    Agrees k m m Stops (blockComment reporting) (blockComment reporting) := by
  refine agrees_here fun start => (agrees_skip 2).onward fun _ => ?_
  let ending (start : Position) (closed : Bool) : Read Unit := do
    if !closed && reporting then
      report .unterminatedComment start (← here) "unterminated block comment"
  let next (start : Position) (s : List Char) : Read Unit := do
    skip (commentBody s).1.length
    ending start (commentBody s).2
  have ended (closed : Bool) : Agrees k m m Stops (ending start closed) (ending (start.shift k.front) closed) := by
    dsimp only [ending]
    split
    · exact agrees_here fun stop => agrees_report (by decide)
    · exact agrees_pure ()
  have rest (s : List Char) : Agrees k m m Stops (next start s) (next (start.shift k.front) s) :=
    (agrees_skip _).onward fun _ => ended _
  refine @agrees_text _ _ _ _ _ (next start) (next (start.shift k.front)) rest fun c a d ran _ stops => ?_
  have closed : (commentBody c.rest).2 = true := by
    rcases commentBody_spec c.rest with ⟨-, whole⟩ | ⟨_, _, -, -, same⟩
    · -- A comment that is not closed leaves nothing.
      obtain ⟨_, c₁, ⟨⟩, ran₂⟩ := bind_eq_ok.mp ran
      have member : ';' ∈ c.rest.drop (commentBody c.rest).1.length := (ended _ _ a d ran₂).1.mem stops
      rw [whole, List.drop_length] at member
      cases member
    · rw [same]
  simp only [next, commentBody_append closed]

theorem agrees_restOfLine : Agrees k m m Stops restOfLine restOfLine :=
  (agrees_takeWhile _).onward fun _ => agrees_skip 1

/-- Two characters tell what is next. -/
theorem skipBlank_eq (reporting : Bool) : skipBlank reporting = (do
    let c ← get
    if ['/', '/'].isPrefixOf c.rest then do restOfLine; return true
    else if ['/', '*'].isPrefixOf c.rest then do blockComment reporting; return true
    else if c.rest.head?.any isBlank then do skip 1; return true
    else return false) := by
  have apart {first sign : Char} {rest : List Char} (other : ∀ tail, first = '/' → rest = sign :: tail → False) :
      ¬ ['/', sign].isPrefixOf (first :: rest) = true := by
    rw [List.isPrefixOf_iff_prefix]
    rintro ⟨tail, same⟩
    obtain ⟨slash, same⟩ := List.cons.inj same
    exact other tail slash.symm same.symm
  unfold skipBlank
  congr! 2 with c
  split
  · next ahead =>
    rw [ahead]
    rfl
  · next ahead =>
    rw [ahead]
    rfl
  · next first rest line block ahead =>
    rw [ahead, if_neg (apart line), if_neg (apart block), List.head?_cons, Option.any_some]
  · next ahead =>
    rw [ahead]
    rfl

/-- What is left of the text tells what is passed over. -/
theorem skipItem_eq : skipItem = (do
    let c ← get
    c.rest.casesOn (pure ()) fun c rest =>
      if c = '\'' ∨ c = '"' then skip (1 + (stringBody c rest).length) else skip 1) := by
  unfold skipItem
  congr! 2 with c
  cases c.rest <;> rfl

theorem agrees_skipBlank (reporting : Bool) : Agrees k m m Stops (skipBlank reporting) (skipBlank reporting) := by
  let next (s : List Char) : Read Bool :=
    if ['/', '/'].isPrefixOf s then do restOfLine; return true
    else if ['/', '*'].isPrefixOf s then do blockComment reporting; return true
    else if s.head?.any isBlank then do skip 1; return true
    else return false
  rw [skipBlank_eq]
  refine @agrees_text _ _ _ _ _ next next (fun s => ?_) fun c a d _ advances stops => ?_
  · dsimp only [next]
    split
    · exact agrees_restOfLine.onward fun _ => agrees_pure _
    · split
      · exact (agrees_blockComment reporting).onward fun _ => agrees_pure _
      · split
        · exact (agrees_skip 1).onward fun _ => agrees_pure _
        · exact agrees_pure _
  · have member := advances.mem stops
    simp only [next, isPrefixOf_append (by decide : ';' ∉ ['/', '/']) member,
      isPrefixOf_append (by decide : ';' ∉ ['/', '*']) member,
      List.head?_append_of_ne_nil _ (List.ne_nil_of_mem member)]

theorem agrees_skipBlanks (reporting : Bool) (limit limit' : Nat) : Agrees k m m Stops
    (countWhile (skipBlank reporting) limit) (countWhile (skipBlank reporting) limit') :=
  agrees_countWhile (agrees_skipBlank reporting) (fun _ stops => stops) (fun _ => asks_stops _ fun _ _ stops => stops)
    limit limit'

theorem agrees_skipSpacing (reporting : Bool) : Agrees k m m Stops (skipSpacing reporting) (skipSpacing reporting) :=
  agrees_steps fun limit limit' => (agrees_skipBlanks reporting limit limit').onward fun _ => agrees_pure ()

theorem agrees_spacing (known : m' = .inside → m = .inside) : Agrees k m m' Stops spacing spacing := by
  intro c a d ran
  have skipping : Agrees k m' m' Stops (skipSpacing true) (skipSpacing true) := agrees_skipSpacing true
  obtain ⟨⟨marks, problems, taken⟩, follows⟩ := skipping { c with tokenEnd := c.position } a d ran
  refine ⟨⟨marks, problems, taken⟩, fun told c' a' d' related ran' => ?_⟩
  refine follows told { c' with tokenEnd := c'.position } a' d' ?_ ran'
  exact { related with tokenEnd := fun _ => related.position, current := fun inside => related.current (known inside) }

theorem agrees_identifier : Agrees k m m Stops identifier identifier := by
  refine agrees_peek (fun next => ?_) fun _ _ stops => stops
  cases next with
  | none => exact agrees_pure _
  | some c =>
    dsimp only
    split
    · exact (agrees_takeWhile _).onward fun _ => agrees_pure _
    · exact agrees_pure _

theorem agrees_assignment : Agrees k m m Stops assignment assignment := by
  have first (text : String) (other : ';' ∉ text.toList) {rest : Read Bool} (last : Agrees k m m Stops rest rest) :
      Agrees k m m Stops (do if ← eat text then return true else rest)
        (do if ← eat text then return true else rest) := by
    refine (agrees_eat (.inl other)).onward fun found => ?_
    cases found with
    | true => exact agrees_pure _
    | false => exact last
  exact first "::=" (by decide) (first ":" (by decide) (first "=" (by decide) (agrees_eat (.inl (by decide)))))

theorem takeWhile_take_append {p : Char → Bool} (other : p ';' = false) {s : List Char} (stops : ';' ∈ s)
    (count : Nat) (more : List Char) : ((s ++ more).take count).takeWhile p = (s.take count).takeWhile p := by
  induction s generalizing count with
  | nil => cases stops
  | cons c rest ih =>
    cases count with
    | zero => rfl
    | succ count =>
      rw [List.cons_append, List.take_succ_cons, List.take_succ_cons]
      by_cases holds : p c = true
      · rw [List.takeWhile_cons_of_pos holds, List.takeWhile_cons_of_pos holds]
        rcases List.mem_cons.mp stops with rfl | stops
        · rw [other] at holds
          cases holds
        · rw [ih stops]
      · rw [List.takeWhile_cons_of_neg holds, List.takeWhile_cons_of_neg holds]

theorem agrees_unicodeEscape (start : Position) (reporting : Bool) :
    Agrees k m m Stops (unicodeEscape start reporting) (unicodeEscape (start.shift k.front) reporting) := by
  let digits (s : List Char) : List Char := (s.take 4).takeWhile fun c => (hexDigit? c).isSome
  let decode (start : Position) (digits : List Char) : Read (Option Char) := do
    skip digits.length
    let code := digits.foldl (fun code c => 16 * code + (hexDigit? c).getD 0) 0
    let decoded := if digits.length = 4 then charOfCode? code else none
    if decoded.isNone && reporting then
      report .invalidCodePoint start (← here) "invalid unicode character"
    return decoded
  have decodes (digits : List Char) :
      Agrees k m m Stops (decode start digits) (decode (start.shift k.front) digits) := by
    refine (agrees_skip _).onward fun _ => ?_
    dsimp only
    generalize (ite (digits.length = 4) _ _ : Option Char) = decoded
    split
    · exact agrees_here fun stop => agrees_reported (by decide) (agrees_pure _)
    · exact agrees_pure _
  refine @agrees_text _ _ _ _ _ (fun s => decode start (digits s)) (fun s => decode (start.shift k.front) (digits s))
    (fun s => decodes _) fun c a d _ advances stops => ?_
  have same : digits (c.rest ++ k.behind) = digits c.rest :=
    @takeWhile_take_append (fun c => (hexDigit? c).isSome) (by decide) _ (advances.mem stops) 4 k.behind
  exact congrArg _ same

theorem agrees_escape (reporting : Bool) : Agrees k m m Stops (escape reporting) (escape reporting) := by
  refine agrees_here fun start => (agrees_skip 1).onward fun _ => agrees_peek (fun next => ?_) fun _ _ stops => stops
  split
  · exact (agrees_skip 1).onward fun _ => agrees_unicodeEscape start reporting
  · dsimp only
    split
    · exact (agrees_skip 1).onward fun _ => agrees_pure _
    · have failed : Agrees k m m Stops (do
          if reporting then report .invalidEscape start (← here) "invalid escape sequence"
          return none) (do
          if reporting then report .invalidEscape (start.shift k.front) (← here) "invalid escape sequence"
          return (none : Option Char)) := by
        cases reporting with
        | true => exact agrees_here fun stop => agrees_reported (by decide) (agrees_pure _)
        | false => exact agrees_pure _
      split
      · exact (agrees_skip 1).onward fun _ => failed
      · exact failed

theorem agrees_quotedText_go (quote : Char) (start : Position) (limit limit' : Nat) :
    Agrees k m m Stops (quotedText.go quote start limit) (quotedText.go quote (start.shift k.front) limit') := by
  induction limit generalizing limit' with
  | zero => exact agrees_throw _
  | succ limit ih =>
    refine agrees_limit rfl (fun limit' => ?_) limit'
    have unterminated : Agrees k m m Stops (do
        report .unterminatedString start (← here) "unterminated string"
        return []) (do
        report .unterminatedString (start.shift k.front) (← here) "unterminated string"
        return ([] : List Char)) :=
      agrees_here fun stop => agrees_reported (by decide) (agrees_pure _)
    refine agrees_peek (fun next => ?_) fun _ _ stops => stops
    cases next with
    | none => exact unterminated
    | some c =>
      dsimp only
      split
      · exact unterminated
      split
      · exact (agrees_skip 1).onward fun _ => agrees_pure _
      split
      · exact (agrees_escape true).onward fun decoded => (ih limit').onward fun tail => agrees_pure _
      · exact (agrees_skip 1).onward fun _ => (ih limit').onward fun tail => agrees_pure _

theorem agrees_quotedText (quote : Char) : Agrees k m m Stops (quotedText quote) (quotedText quote) :=
  agrees_here fun start => (agrees_skip 1).onward fun _ => agrees_steps fun limit limit' =>
    agrees_quotedText_go quote start limit limit'

theorem agrees_quietChar : Agrees k m m Stops quietChar quietChar := by
  have close (c : Char) : Agrees k m m Stops (do if ← eat "'" then return some c else return none)
      (do if ← eat "'" then return some c else return none) := by
    refine (agrees_eat (.inl (by decide))).onward fun closed => ?_
    cases closed <;> exact agrees_pure _
  have inQuotes : Agrees k m m Stops charInQuotes charInQuotes := by
    refine agrees_peek (fun next => ?_) fun _ _ stops => stops
    cases next with
    | none => exact agrees_pure _
    | some c =>
      dsimp only
      split
      · exact agrees_pure _
      split
      · refine (agrees_escape false).onward fun decoded => ?_
        cases decoded with
        | none => exact agrees_pure _
        | some c => exact close c
      · exact (agrees_skip 1).onward fun _ => close c
  refine (agrees_eat (.inl (by decide))).onward fun opened => ?_
  cases opened with
  | true => exact inQuotes
  | false => exact agrees_pure _

/-- Where no interval is read, none may be possible with the text behind either. -/
def Undivided (k : Setting) (found : Option (Char × Char)) (s : List Char) : Prop :=
  ';' ∈ s ∧ (found = none → ∀ after, ¬ IsInterval (s ++ k.behind) after)

theorem agrees_quietInterval : Agrees k m m (Undivided k) quietInterval quietInterval := by
  have tried : Agrees k m m (fun found s => found.isSome = true ∧ ';' ∈ s) quietInterval quietInterval := by
    refine Agrees.attempt (agrees_quietChar.onward fun first => (agrees_skipSpacing false).onward fun _ => ?_)
    cases first with
    | none => exact agrees_pure _
    | some lo =>
      refine (agrees_eat (.inl (by decide))).onward fun separated => ?_
      cases separated with
      | false => exact agrees_pure _
      | true => exact (agrees_skipSpacing false).onward fun _ => agrees_quietChar.onward fun second => agrees_pure _
  intro c found d ran
  obtain ⟨advances, follows⟩ := tried c found d ran
  refine ⟨advances, fun told c' found' d' related ran' => ?_⟩
  rcases told with none | ⟨silent, stops, undivided⟩
  · exact follows (.inl none) c' found' d' related ran'
  cases found with
  | some interval => exact follows (.inr ⟨silent, rfl, stops⟩) c' found' d' related ran'
  | none =>
    -- The attempt has failed, and it fails in the longer text.
    obtain ⟨_, _, same, moved⟩ := ends_quietInterval c
    cases ran.symm.trans same
    obtain rfl : d = c := moved
    have other : ∀ after, ¬ IsInterval c'.rest after := by
      rw [related.rest]
      exact undivided rfl
    obtain ⟨rfl, -⟩ := reads_quietInterval_none other c' found' d' rfl ran'
    obtain ⟨_, _, same', moved'⟩ := ends_quietInterval c'
    cases ran'.symm.trans same'
    obtain rfl : d' = c' := moved'
    exact ⟨rfl, related⟩

theorem agrees_setChar : Agrees k m m Stops setChar setChar := by
  refine agrees_here fun start => (agrees_quotedText '\'').onward fun text => agrees_here fun stop => ?_
  refine (agrees_spacing id).onward fun _ => ?_
  split
  · exact agrees_pure _
  · exact agrees_reported (by decide) (agrees_pure _)

theorem agrees_skipSet : Agrees k m m Stops skipSet skipSet :=
  (agrees_takeWhile _).onward fun _ => (agrees_eat (.inl (by decide))).onward fun _ => agrees_pure ()

theorem agrees_setInterval : Agrees k m m Stops setInterval setInterval := by
  refine agrees_setChar.onward fun first => ?_
  cases first with
  | none => exact agrees_pure _
  | some lo =>
    refine (agrees_eat (.inl (by decide))).onward fun separated => ?_
    cases separated with
    | true => exact (agrees_spacing id).onward fun _ => agrees_setChar.onward fun second => agrees_pure _
    | false => exact agrees_pure _

theorem agrees_setElements {element element' : Read (Option Charset)}
    (inner : Agrees k m m Stops element element') (limit limit' : Nat) (set : Charset) :
    Agrees k m m Stops (setElements element limit set) (setElements element' limit' set) := by
  induction limit generalizing limit' set with
  | zero => exact agrees_throw _
  | succ limit ih =>
    refine @agrees_limit _ _ _ _ _ _ (setElements element' · set) rfl (fun limit' => ?_) limit'
    refine inner.onward fun more => ?_
    cases more with
    | none => exact agrees_skipSet.onward fun _ => agrees_pure _
    | some more =>
      refine (agrees_eat (.inl (by decide))).onward fun separated => ?_
      cases separated with
      | true => exact (agrees_spacing id).onward fun _ => ih limit' _
      | false =>
        refine (agrees_eat (.inl (by decide))).onward fun closed => ?_
        cases closed with
        | true => exact agrees_pure _
        | false =>
          exact agrees_here fun place => agrees_reported (by decide) (agrees_skipSet.onward fun _ => agrees_pure _)

theorem agrees_bracketSet {element element' : Read (Option Charset)} (inner : Agrees k m m Stops element element') :
    Agrees k m m Stops (bracketSet element) (bracketSet element') := by
  refine (agrees_skip 1).onward fun _ => (agrees_spacing id).onward fun _ => ?_
  refine (agrees_eat (.inl (by decide))).onward fun closed => ?_
  cases closed with
  | true => exact agrees_pure _
  | false => exact agrees_steps fun limit limit' => agrees_setElements inner limit limit' _

theorem agrees_setElement (depth depth' : Nat) : Agrees k m m Stops (setElement depth) (setElement depth') := by
  induction depth generalizing depth' with
  | zero => exact agrees_throw _
  | succ depth ih =>
    refine agrees_limit rfl (fun depth' => ?_) depth'
    refine agrees_peek (fun next => ?_) fun _ _ stops => stops
    split
    · refine (agrees_skip 1).onward fun _ => (agrees_spacing id).onward fun _ => ?_
      exact (ih depth').onward fun set => agrees_pure _
    · exact (agrees_bracketSet (ih depth')).onward fun set => (agrees_spacing id).onward fun _ => agrees_pure _
    · exact agrees_setInterval
    · exact agrees_here fun place => agrees_reported (by decide) (agrees_pure _)

theorem agrees_charset : Agrees k m m Stops charset charset :=
  agrees_steps fun depth depth' => agrees_bracketSet (agrees_setElement depth depth')

theorem agrees_integer : Agrees k m m Stops integer integer := by
  refine (agrees_takeWhile _).onward fun digits => ?_
  split
  · exact agrees_pure _
  · exact (agrees_spacing id).onward fun _ => agrees_pure _

end Read

end Packrat
