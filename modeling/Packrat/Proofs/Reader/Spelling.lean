import Packrat.Grammar.Render
import Packrat.Proofs.Reader.Exact

/-! # Reading what is spelled

The strings, intervals, sets and numbers of a rendered grammar are read as they were: every character of a string is
spelled by itself or by an escape that is decoded to it, the elements of a set in normal form are put together to the
set, and a number is the value of its digits.
-/

namespace Packrat

namespace Read

variable {α : Type} {c d lo hi quote : Char} {image s behind : List Char}

section Escapes

theorem takes_unicodeEscape (start : Position) (reporting : Bool) (small : c.toNat < 0xD800) (behind : List Char) :
    Takes (unicodeEscape start reporting) (Escape.fourDigits c.toNat ++ behind) (some c) behind := by
  intro cursor here
  have digit (n : Nat) : hexDigit? (Escape.upperDigit (n % 16)) = some (n % 16) :=
    hexDigit?_upperDigit _ (Nat.mod_lt _ (by decide))
  have digits : ((cursor.rest.take 4).takeWhile fun c => (hexDigit? c).isSome) = Escape.fourDigits c.toNat := by
    rw [here]
    simp [Escape.fourDigits, digit]
  have code : (Escape.fourDigits c.toNat).foldl (fun code c => 16 * code + (hexDigit? c).getD 0) 0 = c.toNat := by
    simp only [Escape.fourDigits, List.map_cons, List.map_nil, List.foldl_cons, List.foldl_nil, digit,
      Option.getD_some]
    omega
  have decoded : charOfCode? c.toNat = some c := by
    rw [charOfCode?, if_pos (show c.toNat.isValidChar from c.valid), Char.ofNat_toNat]
  rw [unicodeEscape, ends_get]
  simp only [digits, code]
  rw [ends_skip, if_pos (show (Escape.fourDigits c.toNat).length = 4 from rfl), decoded]
  simp only [Option.isNone_some, Bool.false_and, Bool.false_eq_true, ↓reduceIte]
  rw [ends_pure]
  refine ⟨rfl, ?_, rfl, rfl, rfl⟩
  rw [Cursor.rest_forward, here, List.drop_left]

theorem takes_letterEscape (reporting : Bool) {letter : Char} (decoded : letterEscape? letter = some c)
    (behind : List Char) : Takes (escape reporting) ('\\' :: letter :: behind) (some c) behind := by
  refine takes_here fun start => (takes_skip 1 _).bind (takes_peek ?_)
  rw [List.drop_succ_cons, List.drop_zero, List.head?_cons]
  split
  · next same =>
    cases same
    cases decoded
  · rw [Option.bind_eq_bind, Option.bind_some, decoded]
    exact (takes_skip 1 _).bind (takes_pure _ _)

/-- A character inside quotes stands for itself, or is escaped. -/
theorem spelled (quoted : quote = '\'' ∨ quote = '"') (c : Char) :
    (Escape.char quote c = [c] ∧ c ≠ '\\' ∧ c ≠ '\n' ∧ c ≠ quote) ∨
      ∃ code, Escape.char quote c = '\\' :: code ∧
        ∀ reporting behind, Takes (escape reporting) ('\\' :: (code ++ behind)) (some c) behind := by
  have letter {l : Char} (decoded : letterEscape? l = some c) : ∃ code, ['\\', l] = '\\' :: code ∧
      ∀ reporting behind, Takes (escape reporting) ('\\' :: (code ++ behind)) (some c) behind :=
    ⟨[l], rfl, fun reporting behind => takes_letterEscape reporting decoded behind⟩
  unfold Escape.char
  split
  · next same =>
    subst same
    exact .inr (letter rfl)
  next backslash =>
  split
  · next same =>
    subst same
    exact .inr (letter rfl)
  next newline =>
  split
  · next same =>
    subst same
    exact .inr (letter rfl)
  split
  · next same =>
    subst same
    exact .inr (letter rfl)
  split
  · next same =>
    subst same
    exact .inr (letter rfl)
  split
  · next same =>
    subst same
    exact .inr (letter rfl)
  split
  · next same =>
    subst same
    rcases quoted with rfl | rfl
    · exact .inr (letter rfl)
    · exact .inr (letter rfl)
  next unquoted =>
  split
  · next control =>
    refine .inr ⟨_, rfl, fun reporting behind => takes_here fun start => ?_⟩
    refine (takes_skip 1 _).bind (takes_peek ((takes_skip 1 _).bind ?_))
    refine takes_unicodeEscape start reporting ?_ behind
    simp only [Escape.isControl, Bool.or_eq_true, Bool.and_eq_true, decide_eq_true_eq] at control
    omega
  · exact .inl ⟨rfl, backslash, newline, unquoted⟩

end Escapes

section Strings

/-- A text in quotes. -/
def quotation (quote : Char) (image : List Char) : List Char :=
  quote :: (image.flatMap (Escape.char quote) ++ [quote])

theorem quotation_append (quote : Char) (image behind : List Char) :
    quotation quote image ++ behind = quote :: (image.flatMap (Escape.char quote) ++ quote :: behind) := by
  rw [quotation, List.cons_append, List.append_assoc, List.singleton_append]

private theorem takes_quotedText_go (quoted : quote = '\'' ∨ quote = '"') (start : Position) {limit : Nat}
    (enough : image.length < limit) : Takes (quotedText.go quote start limit)
      (image.flatMap (Escape.char quote) ++ quote :: behind) image behind := by
  induction image generalizing limit with
  | nil =>
    obtain ⟨limit, rfl⟩ := Nat.exists_eq_add_one_of_ne_zero (Nat.ne_zero_of_lt enough)
    have solid : quote ≠ '\n' := by rcases quoted with rfl | rfl <;> decide
    refine takes_peek ?_
    rw [List.flatMap_nil, List.nil_append, List.head?_cons]
    dsimp only
    rw [if_neg solid, if_pos rfl]
    exact (takes_skip 1 _).bind (takes_pure _ _)
  | cons d rest ih =>
    obtain ⟨limit, rfl⟩ := Nat.exists_eq_add_one_of_ne_zero (Nat.ne_zero_of_lt enough)
    have others := ih (Nat.lt_of_succ_lt_succ enough)
    refine takes_peek ?_
    rw [List.flatMap_cons, List.append_assoc]
    rcases spelled quoted d with ⟨same, backslash, newline, unquoted⟩ | ⟨code, same, decodes⟩
    · rw [same, List.singleton_append, List.head?_cons]
      dsimp only
      rw [if_neg newline, if_neg unquoted, if_neg backslash]
      exact (takes_skip 1 _).bind (others.bind (takes_pure _ _))
    · have unquoted : '\\' ≠ quote := by rcases quoted with rfl | rfl <;> decide
      rw [same, List.cons_append, List.head?_cons]
      dsimp only
      rw [if_neg (by decide), if_neg unquoted, if_pos rfl]
      exact (decodes true _).bind (others.bind (takes_pure _ _))

private theorem length_le_spelled (quoted : quote = '\'' ∨ quote = '"') (image : List Char) :
    image.length ≤ (image.flatMap (Escape.char quote)).length := by
  induction image with
  | nil => exact Nat.le_refl _
  | cons d rest ih =>
    have : 0 < (Escape.char quote d).length := by
      rcases spelled quoted d with ⟨same, -⟩ | ⟨code, same, -⟩
      · rw [same]
        exact Nat.one_pos
      · rw [same]
        exact Nat.succ_pos _
    rw [List.flatMap_cons, List.length_append, List.length_cons]
    omega

theorem takes_quotedText (quoted : quote = '\'' ∨ quote = '"') (image behind : List Char) :
    Takes (quotedText quote) (quotation quote image ++ behind) image behind := by
  rw [quotation_append]
  refine takes_here fun start => (takes_skip 1 _).bind (takes_steps (takes_quotedText_go quoted start ?_))
  have := length_le_spelled quoted image
  rw [List.drop_one, List.tail_cons, List.length_append]
  omega

end Strings

section Intervals

private theorem apostrophe : ('\'' : Char) = '\'' ∨ ('\'' : Char) = '"' := .inl rfl

/-- One character is read, and then the quote behind it is looked for. -/
private theorem takes_charInQuotes {found : Option Char}
    (closes : Takes (do if ← eat "'" then return some c else return none) s found behind) :
    Takes charInQuotes (Escape.char '\'' c ++ s) found behind := by
  refine takes_peek ?_
  rcases spelled apostrophe c with ⟨same, backslash, newline, unquoted⟩ | ⟨code, same, decodes⟩
  · rw [same, List.singleton_append, List.head?_cons]
    dsimp only
    rw [if_neg (not_or.mpr ⟨unquoted, newline⟩), if_neg backslash]
    exact (takes_skip 1 _).bind closes
  · rw [same, List.cons_append, List.head?_cons]
    dsimp only
    rw [if_neg (by decide), if_pos rfl]
    exact (decodes false s).bind closes

theorem takes_quietChar (c : Char) (behind : List Char) :
    Takes quietChar (quotation '\'' [c] ++ behind) (some c) behind := by
  rw [quotation_append, List.flatMap_singleton]
  exact (takes_eat "'" _).bind (takes_charInQuotes ((takes_eat "'" behind).bind (takes_pure _ _)))

/-- A text of no or several characters is not a character. -/
private theorem takes_quietChar_none (several : image.length ≠ 1) (behind : List Char) :
    ∃ middle, Takes quietChar (quotation '\'' image ++ behind) none middle := by
  rw [quotation_append]
  rcases image with _ | ⟨d, _ | ⟨e, rest⟩⟩
  · exact ⟨_, (takes_eat "'" _).bind (takes_peek (takes_pure none _))⟩
  · exact absurd rfl several
  · rw [List.flatMap_cons, List.flatMap_cons, List.append_assoc, List.append_assoc]
    refine ⟨_, (takes_eat "'" _).bind (takes_charInQuotes ((takes_eat_none ?_).bind (takes_pure none _)))⟩
    rcases spelled apostrophe e with ⟨same, -, -, unquoted⟩ | ⟨code, same, -⟩
    · rw [same, List.singleton_append]
      exact Bool.and_eq_false_imp.mpr fun equal => absurd (beq_iff_eq.mp equal).symm unquoted
    · rw [same]
      rfl

theorem takes_quietInterval (lo hi : Char) (behind : List Char) :
    Takes quietInterval (quotation '\'' [lo] ++ '-' :: (quotation '\'' [hi] ++ behind)) (some (lo, hi)) behind := by
  have minus : isBlank '-' = false := isBlank_of_sign _ (by decide)
  have quote : isBlank '\'' = false := isBlank_of_sign _ (by decide)
  have second := takes_quietChar hi behind
  rw [quotation_append] at second
  rw [quotation_append _ [hi]]
  refine Takes.attempt ?_ rfl
  refine (takes_quietChar lo _).bind ((takes_skipSpacing false (calm_cons minus (by decide))).bind ?_)
  rw [settle_cons_of_not_blank minus]
  refine (takes_eat "-" _).bind ((takes_skipSpacing false (calm_cons quote (by decide))).bind ?_)
  rw [settle_cons_of_not_blank quote]
  exact second.bind (takes_pure _ _)

/-- A text is not the beginning of an interval unless a minus sign is behind it. -/
theorem takes_quietInterval_none (image : List Char) (calm : Calm behind)
    (alone : "-".toList.isPrefixOf (settle behind) = false) :
    Takes quietInterval (quotation '\'' image ++ behind) none (quotation '\'' image ++ behind) := by
  refine takes_attempt_failed rfl fun cursor here => ?_
  by_cases single : image.length = 1
  · obtain ⟨c, rfl⟩ := List.length_eq_one_iff.mp single
    refine (takes_quietChar c behind cursor here).bind fun _ c₁ ⟨same, passed₁⟩ => ?_
    subst same
    refine (takes_skipSpacing false calm c₁ passed₁.rest).bind fun _ c₂ ⟨_, passed₂⟩ => ?_
    refine (takes_eat_none alone c₂ passed₂.rest).bind fun _ c₃ ⟨same, passed₃⟩ => ?_
    subst same
    refine (ends_pure _).mpr ⟨rfl, ?_⟩
    rw [passed₃.rest]
    exact passed₁.trans (passed₂.trans passed₃)
  · obtain ⟨middle, read⟩ := takes_quietChar_none single behind
    refine (read cursor here).bind fun _ c' ⟨same, passed⟩ => ?_
    subst same
    refine (total_skipSpacing false c').bind fun _ c'' after => (ends_pure _).mpr ⟨rfl, ?_⟩
    obtain ⟨count, rfl⟩ := after
    exact passed.trans (.forward c' count)

end Intervals

section Sets

theorem toList_intervalText (i : Interval) : i.text.toList =
    if i.lo = i.hi then quotation '\'' [i.lo] else quotation '\'' [i.lo] ++ '-' :: quotation '\'' [i.hi] := by
  have quoted (c : Char) : ("'" ++ String.ofList (Escape.char '\'' c) ++ "'").toList = quotation '\'' [c] := by
    simp [quotation]
  unfold Interval.text
  split
  · exact quoted i.lo
  · rw [String.toList_append, String.toList_append, List.append_assoc]
    exact congr (congrArg _ (quoted i.lo)) (congrArg ('-' :: ·) (quoted i.hi))

theorem takes_setChar (c : Char) (calm : Calm behind) :
    Takes setChar (quotation '\'' [c] ++ behind) (some c) (settle behind) := by
  refine takes_here fun start => (takes_quotedText apostrophe [c] behind).bind (takes_here fun stop => ?_)
  exact (takes_spacing calm).bind (takes_pure _ _)

theorem takes_setInterval {i : Interval} (ordered : i.Ordered) (calm : Calm behind)
    (alone : "-".toList.isPrefixOf (settle behind) = false) :
    Takes setInterval (i.text.toList ++ behind) (some ⟨#[i]⟩) (settle behind) := by
  have single : Charset.ofIntervals [.between i.lo i.hi] = ⟨#[i]⟩ := by
    rw [Interval.between_of_le ordered]
    exact Charset.ofIntervals_of_ascending (Charset.ascending_singleton ordered)
  rw [toList_intervalText]
  split
  · next same =>
    rw [← same] at single
    refine (takes_setChar i.lo calm).bind ((takes_eat_none alone).bind ?_)
    rw [if_neg Bool.false_ne_true, single]
    exact takes_pure _ _
  · have minus : '-' ∈ signs := by decide
    have quote : '\'' ∈ signs := by decide
    have second := takes_setChar i.hi calm
    rw [quotation_append] at second
    rw [List.append_assoc, List.cons_append, quotation_append _ [i.hi]]
    refine (takes_setChar i.lo (calm_sign minus (by decide))).bind ?_
    rw [settle_sign minus]
    refine (takes_eat "-" _).bind ((takes_spacing (calm_sign quote (by decide))).bind ?_)
    rw [settle_sign quote]
    refine second.bind ?_
    rw [Option.map_some, single]
    exact takes_pure _ _

theorem exists_intervalText (i : Interval) : ∃ s, i.text.toList = '\'' :: s := by
  rw [toList_intervalText]
  split
  · exact ⟨_, rfl⟩
  · exact ⟨_, rfl⟩

/-- A list of intervals begins with a quote, and is longer than there are commas in it. -/
private theorem exists_enumeration (i : Interval) (rest : List Interval) :
    ∃ s, ", ".toList.intercalate (i.text.toList :: rest.map (·.text.toList)) = '\'' :: s ∧ rest.length ≤ s.length := by
  obtain ⟨s, begins⟩ := exists_intervalText i
  induction rest generalizing i s with
  | nil => exact ⟨s, (List.intercalate_singleton ..).trans begins, Nat.zero_le _⟩
  | cons j rest ih =>
    obtain ⟨s', begins'⟩ := exists_intervalText j
    obtain ⟨others, same, long⟩ := ih j s' begins'
    rw [List.map_cons, List.intercalate_cons_cons, begins, same, List.cons_append, List.cons_append]
    refine ⟨_, rfl, ?_⟩
    simp only [List.length_append, List.length_cons]
    omega

/-- The elements of a set behind those that have been read. -/
private theorem takes_setElements {element : Read (Option Charset)} {limit : Nat} {done rest : List Interval}
    {i : Interval} (reads : ∀ {i : Interval} {s}, i.Ordered → Calm s → "-".toList.isPrefixOf (settle s) = false →
      Takes element (i.text.toList ++ s) (some ⟨#[i]⟩) (settle s))
    (ascending : Charset.Ascending (done ++ i :: rest)) (enough : rest.length < limit) (behind : List Char) :
    Takes (setElements element limit ⟨done.toArray⟩)
      (", ".toList.intercalate (i.text.toList :: rest.map (·.text.toList)) ++ ']' :: behind) ⟨(done ++ i :: rest).toArray⟩ behind := by
  have ordered : i.Ordered := ascending.ordered i (List.mem_append_right _ (List.mem_cons_self ..))
  induction rest generalizing done i limit with
  | nil =>
    obtain ⟨limit, rfl⟩ := Nat.exists_eq_add_one_of_ne_zero (Nat.ne_zero_of_lt enough)
    have bracket : ']' ∈ signs := by decide
    have read := @reads i (']' :: behind) ordered (calm_sign bracket (by decide)) (by rw [settle_sign bracket]; rfl)
    rw [settle_sign bracket] at read
    rw [List.map_nil, List.intercalate_singleton]
    refine read.bind ?_
    dsimp only
    rw [Charset.union_single ascending]
    exact (takes_eat_none rfl).bind ((takes_eat "]" behind).bind (takes_pure _ _))
  | cons j rest ih =>
    obtain ⟨limit, rfl⟩ := Nat.exists_eq_add_one_of_ne_zero (Nat.ne_zero_of_lt enough)
    have comma : ',' ∈ signs := by decide
    have quote : '\'' ∈ signs := by decide
    rw [List.append_cons done i (j :: rest)] at ascending ⊢
    have last : j.Ordered := ascending.ordered j (List.mem_append_right _ (List.mem_cons_self ..))
    have others := ih ascending (Nat.lt_of_succ_lt_succ enough) last
    obtain ⟨s, begins, -⟩ := exists_enumeration j rest
    rw [begins] at others
    rw [List.map_cons, List.intercalate_cons_cons, begins, List.append_assoc, List.append_assoc]
    have read := @reads i (", ".toList ++ ('\'' :: s ++ ']' :: behind)) ordered (calm_sign comma (by decide))
      (by rw [show settle (", ".toList ++ _) = _ from settle_sign comma]; rfl)
    rw [show settle (", ".toList ++ _) = _ from settle_sign comma] at read
    refine read.bind ?_
    dsimp only
    rw [Charset.union_single ascending.left]
    refine (takes_eat "," _).bind ((takes_spacing (calm_blank (calm_sign quote (by decide)))).bind ?_)
    rw [settle_blank, settle_sign quote]
    exact others

/-- A set as the list of its intervals in brackets. -/
def listing (set : Charset) : List Char :=
  '[' :: (", ".toList.intercalate (set.intervals.toList.map (·.text.toList)) ++ [']'])

private theorem listing_append (set : Charset) (behind : List Char) : listing set ++ behind =
    '[' :: (", ".toList.intercalate (set.intervals.toList.map (·.text.toList)) ++ ']' :: behind) := by
  rw [listing, List.cons_append, List.append_assoc, List.singleton_append]

/-- The intervals of a set in normal form, one after the other. -/
private theorem takes_bracketSet {element : Read (Option Charset)} {set : Charset} (normal : set.Normal)
    (reads : ∀ {i : Interval} {s}, i.Ordered → Calm s → "-".toList.isPrefixOf (settle s) = false →
      Takes element (i.text.toList ++ s) (some ⟨#[i]⟩) (settle s)) (behind : List Char) :
    Takes (bracketSet element) (listing set ++ behind) set behind := by
  obtain ⟨⟨intervals⟩⟩ := set
  rw [listing_append]
  cases intervals with
  | nil =>
    have bracket : ']' ∈ signs := by decide
    refine (takes_skip 1 _).bind ((takes_spacing (calm_sign bracket (by decide))).bind ?_)
    rw [settle_sign bracket]
    exact (takes_eat "]" behind).bind (takes_pure _ _)
  | cons i rest =>
    have quote : '\'' ∈ signs := by decide
    have elements {limit : Nat} := @takes_setElements element limit [] rest i reads normal
    obtain ⟨s, begins, long⟩ := exists_enumeration i rest
    rw [begins] at elements
    rw [List.map_cons, begins]
    refine (takes_skip 1 _).bind ((takes_spacing (calm_sign quote (by decide))).bind ?_)
    rw [settle_sign quote]
    refine (takes_eat_none rfl).bind (takes_steps (elements ?_ behind))
    change _ < (s ++ ']' :: behind).length + 1 + 1
    rw [List.length_append]
    omega

theorem toList_charsetText (set : Charset) :
    set.text.toList = '[' :: '~' :: (listing set.inverse ++ [']']) ∨ set.text.toList = listing set := by
  have listed (set : Charset) : ("[" ++ ", ".intercalate (set.intervals.toList.map Interval.text) ++ "]").toList =
      listing set := by
    rw [String.toList_append, String.toList_append, String.toList_intercalate, List.map_map]
    rfl
  unfold Charset.text
  split
  · split
    · left
      rw [String.toList_append, String.toList_append, List.append_assoc]
      exact congrArg (fun text => '[' :: '~' :: (text ++ [']'])) (listed set.inverse)
    · exact .inr (listed set)
  · exact .inr (listed set)

theorem takes_charset {set : Charset} (normal : set.Normal) (behind : List Char) :
    Takes charset (set.text.toList ++ behind) set behind := by
  have reads (depth : Nat) {i : Interval} {s} (ordered : i.Ordered) (calm : Calm s)
      (alone : "-".toList.isPrefixOf (settle s) = false) :
      Takes (setElement (depth + 1)) (i.text.toList ++ s) (some ⟨#[i]⟩) (settle s) := by
    obtain ⟨s', begins⟩ := exists_intervalText i
    have read := takes_setInterval ordered calm alone
    rw [begins] at read ⊢
    exact takes_peek read
  refine takes_steps ?_
  rcases toList_charsetText set with inverted | plain
  · have tilde : '~' ∈ signs := by decide
    have opening : '[' ∈ signs := by decide
    have closing : ']' ∈ signs := by decide
    rw [inverted]
    have text : '[' :: '~' :: (listing set.inverse ++ [']']) ++ behind =
        '[' :: '~' :: (listing set.inverse ++ ']' :: behind) := by
      rw [List.cons_append, List.cons_append, List.append_assoc, List.singleton_append]
    obtain ⟨depth, deep⟩ : ∃ depth,
        ('[' :: '~' :: (listing set.inverse ++ ']' :: behind)).length + 1 = depth + 3 := by
      refine ⟨(listing set.inverse ++ ']' :: behind).length, ?_⟩
      rw [List.length_cons, List.length_cons]
    rw [text, deep]
    -- The complement in brackets, and the inverse of it as the only element.
    have inner := takes_bracketSet (Charset.normal_inverse normal) (reads depth) (']' :: behind)
    rw [listing_append] at inner ⊢
    generalize ", ".toList.intercalate _ ++ ']' :: ']' :: behind = elements at inner ⊢
    have nested : Takes (setElement (depth + 2)) ('[' :: elements) (some set.inverse) (']' :: behind) := by
      refine takes_peek (inner.bind ((takes_spacing (calm_sign closing (by decide))).bind ?_))
      rw [settle_sign closing]
      exact takes_pure _ _
    have element : Takes (setElement (depth + 3)) ('~' :: '[' :: elements) (some set) (']' :: behind) := by
      refine takes_peek ((takes_skip 1 _).bind ((takes_spacing (calm_sign opening (by decide))).bind ?_))
      rw [settle_sign opening]
      refine nested.bind ?_
      rw [Option.map_some, Charset.inverse_inverse normal]
      exact takes_pure _ _
    refine (takes_skip 1 _).bind ((takes_spacing (calm_sign tilde (by decide))).bind ?_)
    rw [settle_sign tilde]
    refine (takes_eat_none rfl).bind (takes_steps (element.bind ?_))
    dsimp only
    rw [Charset.empty_union normal]
    exact (takes_eat_none rfl).bind ((takes_eat "]" behind).bind (takes_pure _ _))
  · rw [plain]
    exact takes_bracketSet normal (reads _) behind

end Sets

section Numbers

private theorem digits_spec (n : Nat) : (toString n).toList ≠ [] ∧ (∀ d ∈ (toString n).toList, d.isDigit = true) ∧
    (toString n).toList.foldl (fun value c => 10 * value + (c.toNat - 48)) 0 = n := by
  rw [Nat.toString_eq_repr, Nat.toList_repr]
  refine ⟨Nat.toDigits_ne_nil, fun d member => Nat.isDigit_of_mem_toDigits (by decide) (by decide) member, ?_⟩
  exact Nat.ofDigitChars_toDigits (by decide) (by decide)

theorem takes_integer {n : Nat} (bounded : n ≤ unbounded) (stops : ∀ d ∈ behind.head?, d.isDigit = false)
    (calm : Calm behind) : Takes integer ((toString n).toList ++ behind) (some n) (settle behind) := by
  obtain ⟨nonempty, digits, value⟩ := digits_spec n
  refine (takes_takeWhile digits stops).bind ?_
  rw [List.isEmpty_eq_false_iff.mpr nonempty, if_neg Bool.false_ne_true]
  refine (takes_spacing calm).bind ?_
  dsimp only
  rw [value, if_pos bounded]
  exact takes_pure _ _

/-- A number is not a blank or a comment. -/
private theorem settled_digits (n : Nat) (s : List Char) :
    settle ((toString n).toList ++ s) = (toString n).toList ++ s ∧ Calm ((toString n).toList ++ s) := by
  obtain ⟨nonempty, digits, -⟩ := digits_spec n
  obtain ⟨d, rest, same⟩ := List.exists_cons_of_ne_nil nonempty
  rw [same] at digits ⊢
  have digit := digits d (List.mem_cons_self ..)
  have solid : isBlank d = false := by
    refine Bool.eq_false_iff.mpr fun blank => ?_
    rw [(of_blank blank).2] at digit
    cases digit
  refine ⟨settle_cons_of_not_blank solid, calm_cons solid ?_⟩
  rintro rfl
  cases digit

/-- The bounds of a repetition are a sign or numbers in braces. -/
theorem boundsText_eq (min max : Nat) :
    (∃ quantifier : Quantifier, Tree.boundsText min max = quantifier.symbol ∧ quantifier.bounds = (min, max)) ∨
      ∃ numbers, (Tree.boundsText min max).toList = '\x7b' :: (numbers ++ ['\x7d']) ∧
        (∀ s, settle (numbers ++ s) = numbers ++ s ∧ Calm (numbers ++ s)) ∧
        (min ≤ max → max ≤ unbounded → ∀ behind,
          Takes boundNumbers (numbers ++ '\x7d' :: behind) (some (min, max)) ('\x7d' :: behind)) := by
  unfold Tree.boundsText
  cases short : Quantifier.ofBounds? min max with
  | some quantifier =>
    refine .inl ⟨quantifier, rfl, ?_⟩
    unfold Quantifier.ofBounds? at short
    split at short
    · next same =>
      cases short
      exact Prod.ext same.1.symm same.2.symm
    split at short
    · next same =>
      cases short
      exact Prod.ext same.1.symm same.2.symm
    split at short
    · next same =>
      cases short
      exact Prod.ext same.1.symm same.2.symm
    · cases short
  | none =>
    have comma : ',' ∈ signs := by decide
    have brace : '\x7d' ∈ signs := by decide
    have read {n : Nat} {sign : Char} (bounded : n ≤ unbounded) (member : sign ∈ signs) (other : sign ≠ '/')
        (stops : sign.isDigit = false) (behind : List Char) :
        Takes integer ((toString n).toList ++ sign :: behind) (some n) (sign :: behind) := by
      have stops : ∀ d ∈ (sign :: behind).head?, d.isDigit = false := by
        rintro _ ⟨⟩
        exact stops
      have read := takes_integer bounded stops (calm_sign member other)
      rwa [settle_sign member] at read
    right
    dsimp only
    split
    · next same =>
      subst same
      refine ⟨(toString min).toList, by simp, settled_digits min, fun _ bounded behind => ?_⟩
      exact (read bounded brace (by decide) rfl behind).bind ((takes_eat_none rfl).bind (takes_pure _ _))
    split
    · next endless =>
      subst endless
      refine ⟨(toString min).toList ++ [','], by simp, fun s => ?_, fun ordered bounded behind => ?_⟩
      · rw [List.append_assoc]
        exact settled_digits min _
      · rw [List.append_assoc, List.singleton_append]
        refine (read ordered comma (by decide) rfl _).bind ((takes_eat "," _).bind
          ((takes_spacing (calm_sign brace (by decide))).bind ?_))
        rw [settle_sign brace]
        exact takes_peek (takes_pure _ _)
    · refine ⟨(toString min).toList ++ ',' :: (toString max).toList, by simp, fun s => ?_, fun ordered bounded behind => ?_⟩
      · rw [List.append_assoc]
        exact settled_digits min _
      · have last := read bounded brace (by decide) rfl behind
        obtain ⟨settled, calm⟩ := settled_digits max ('\x7d' :: behind)
        obtain ⟨nonempty, digits, -⟩ := digits_spec max
        rw [List.append_assoc, List.cons_append]
        refine (read (Nat.le_trans ordered bounded) comma (by decide) rfl _).bind ((takes_eat "," _).bind
          ((takes_spacing calm).bind ?_))
        rw [settled]
        obtain ⟨d, rest, same⟩ := List.exists_cons_of_ne_nil nonempty
        rw [same] at last digits ⊢
        refine takes_peek ?_
        rw [List.cons_append, List.head?_cons]
        dsimp only
        rw [if_pos (digits d (List.mem_cons_self ..))]
        exact last.bind (takes_pure _ _)

end Numbers

end Read

end Packrat
