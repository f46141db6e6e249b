import Packrat.Proofs.Reader.Blanks
import Packrat.Proofs.Reader.Spelling

/-! # Reading strings and intervals

A string is read silently exactly if all its characters and escapes are as documented and its quote is closed. An
interval is tried before a string, so where a string is expected no interval may be possible: the string would have to
end where the lower bound does, and a minus sign would have to stand behind it.
-/

namespace Packrat

namespace Read

open Documented

variable {quote : Char} {before middle after behind : List Char}

theorem isSome_letterEscape? (c : Char) :
    (letterEscape? c).isSome ↔ c ∈ ['n', 'r', 't', 'f', 'b', '\\', '\'', '"'] := by
  constructor
  · intro some
    unfold letterEscape? at some
    split at some
    · decide
    · decide
    · decide
    · decide
    · decide
    · decide
    · decide
    · decide
    · cases some
  · revert c
    exact forall_of_all (by decide +kernel)

theorem reads_unicodeEscape (start : Position) (reporting : Bool) {digits : List Char} (four : digits.length = 4)
    (hexadecimal : ∀ d ∈ digits, (hexDigit? d).isSome = true) (scalar : (codePoint digits).isValidChar) :
    Reads (unicodeEscape start reporting) (digits ++ after) (fun found => found.isSome) after := by
  refine reads_get fun c ahead => ?_
  have taken : (c.rest.take 4).takeWhile (fun c => (hexDigit? c).isSome) = digits := by
    rw [ahead, ← four, List.take_left, List.takeWhile_eq_self_iff]
    exact hexadecimal
  have decoded : charOfCode? (digits.foldl (fun code c => 16 * code + (hexDigit? c).getD 0) 0) =
      some (Char.ofNat (codePoint digits)) := if_pos scalar
  have skipped : Reads _ (digits ++ after) _ _ := reads_skip digits.length
  rw [List.drop_left] at skipped
  rw [four] at skipped
  simp only [taken, four, decoded, ↓reduceIte, Option.isNone_some, Bool.false_and, Bool.false_eq_true]
  apply skipped.bind
  exact fun _ _ => reads_pure rfl

theorem silently_unicodeEscape (start : Position) (reporting : Bool) :
    Silently (unicodeEscape start reporting) fun found before after => (reporting = true → found.isSome) ∧
      (found.isSome → ∃ digits : List Char, digits.length = 4 ∧ (∀ d ∈ digits, (hexDigit? d).isSome = true) ∧
        (codePoint digits).isValidChar ∧ before = digits ++ after) := by
  refine silently_get fun c => ?_
  have first : (c.rest.take 4).takeWhile (fun c => (hexDigit? c).isSome) <+: c.rest :=
    (List.takeWhile_prefix _).trans (List.take_prefix _ _)
  have hexadecimal : ∀ d ∈ (c.rest.take 4).takeWhile (fun c => (hexDigit? c).isSome), (hexDigit? d).isSome = true :=
    fun d member => List.mem_takeWhile_imp (p := fun c => (hexDigit? c).isSome) member
  dsimp only
  revert first hexadecimal
  generalize (c.rest.take 4).takeWhile _ = digits
  intro first hexadecimal
  generalize answer : (ite (digits.length = 4) _ _ : Option Char) = decoded
  cases decoded with
  | none =>
    cases reporting with
    | true =>
      refine (silently_skip _).bind fun _ => silently_here fun stop => silently_reported ?_
      exact silently_pure fun _ => trivial
    | false => exact (silently_skip _).bind fun _ => silently_pure fun s before _ _ => ⟨nofun, nofun⟩
  | some decoded =>
    refine (silently_skip _).bind fun _ => silently_pure ?_
    rintro _ before rfl same
    refine ⟨fun _ => rfl, fun _ => ⟨digits, ?_⟩⟩
    split at answer
    · next four =>
      refine ⟨four, hexadecimal, ?_, ?_⟩
      · by_contra invalid
        cases (if_neg invalid).symm.trans answer
      · rw [same]
        exact (List.prefix_iff_eq_append.mp first).symm
    · cases answer

/-- An escape that is documented is decoded. -/
theorem reads_escape (reporting : Bool) {rest : List Char} (item : Item quote ('\\' :: rest) after) :
    Reads (escape reporting) ('\\' :: rest) (fun found => found.isSome) after := by
  cases item with
  | plain within online unescaped => exact absurd rfl unescaped
  | letter known =>
    obtain ⟨decoded, same⟩ := Option.isSome_iff_exists.mp ((isSome_letterEscape? _).mpr known)
    exact (takes_letterEscape reporting same after).reads.mono fun found same => same ▸ rfl
  | code four hexadecimal scalar =>
    refine reads_here fun start => (reads_skip 1).bind fun _ _ => reads_peek ?_
    exact (reads_skip 1).bind fun _ _ => reads_unicodeEscape start reporting four hexadecimal scalar

theorem silently_escape (reporting : Bool) : Silently (escape reporting) fun found before after =>
    (reporting = true → found.isSome) ∧
      (found.isSome → ∀ quote rest, before = '\\' :: rest → Item quote before after) := by
  refine silently_here fun start => (silently_skip 1).bind fun _ => silently_peek fun next => ?_
  split
  · refine (silently_skip 1).bind fun _ => (silently_unicodeEscape start reporting).mono ?_
    rintro found _ after ⟨loud, decoded⟩ _ rfl second before rfl
    refine ⟨loud, fun some quote rest same => ?_⟩
    obtain ⟨digits, four, hexadecimal, scalar, left⟩ := decoded some
    subst same
    cases rest with
    | nil => cases second
    | cons u rest =>
      cases second
      have left : rest = digits ++ after := left
      exact left ▸ .code four hexadecimal scalar after
  · next next other =>
    split
    · next decoded known =>
      refine (silently_skip 1).bind fun _ => silently_pure ?_
      rintro _ _ rfl second before rfl
      refine ⟨fun _ => rfl, fun _ quote rest same => ?_⟩
      subst same
      cases rest with
      | nil =>
        cases second
        cases known
      | cons letter rest =>
        cases second
        exact .letter ((isSome_letterEscape? _).mp (Option.isSome_iff_exists.mpr ⟨_, known⟩)) rest
    · have failed : Silently (do
          if reporting then report .invalidEscape start (← here) "invalid escape sequence"
          return none) fun found _ _ => (reporting = true → found.isSome) ∧ found = (none : Option Char) := by
        cases reporting with
        | true => exact silently_here fun stop => silently_reported (silently_pure fun _ => trivial)
        | false => exact silently_pure fun _ => ⟨nofun, rfl⟩
      dsimp only
      split
      · refine (silently_skip 1).bind fun _ => failed.mono ?_
        rintro _ _ _ ⟨loud, rfl⟩ _ _ _ _ _
        exact ⟨loud, nofun⟩
      · refine failed.mono ?_
        rintro _ _ _ ⟨loud, rfl⟩ _ _ _
        exact ⟨loud, nofun⟩

theorem reads_quotedText_end (start : Position) (newline : quote ≠ '\n') (limit : Nat) :
    Reads (quotedText.go quote start limit) (quote :: after) (fun text => text = []) after := by
  cases limit with
  | zero => exact reads_throw _
  | succ limit =>
    refine reads_peek ?_
    rw [List.head?_cons]
    dsimp only
    rw [if_neg newline, if_pos rfl]
    exact (reads_skip 1).bind fun _ _ => reads_pure rfl

theorem reads_quotedText_item {A : List Char → Prop} {start : Position} (unescaped : quote ≠ '\\')
    (item : Item quote before middle) (rest : ∀ limit, Reads (quotedText.go quote start limit) middle A after)
    (limit : Nat) :
    Reads (quotedText.go quote start limit) before (fun text => ∃ c tail, text = c :: tail ∧ A tail) after := by
  cases limit with
  | zero => exact reads_throw _
  | succ limit =>
    have escaped {s : List Char} (item : Item quote ('\\' :: s) middle) :
        Reads (quotedText.go quote start (limit + 1)) ('\\' :: s) (fun text => ∃ c tail, text = c :: tail ∧ A tail)
          after := by
      refine reads_peek ?_
      rw [List.head?_cons]
      dsimp only
      rw [if_neg (by decide), if_neg unescaped.symm, if_pos rfl]
      refine (reads_escape true item).bind fun decoded some => (rest limit).bind fun tail holds => ?_
      obtain ⟨c, rfl⟩ := Option.isSome_iff_exists.mp some
      exact reads_pure ⟨c, tail, rfl, holds⟩
    cases item with
    | plain within online unescaped =>
      refine reads_peek ?_
      rw [List.head?_cons]
      dsimp only
      rw [if_neg online, if_neg within, if_neg unescaped]
      exact (reads_skip 1).bind fun _ _ => (rest limit).bind fun tail holds => reads_pure ⟨_, tail, rfl, holds⟩
    | letter known => exact escaped (.letter known _)
    | code four hexadecimal scalar => exact escaped (.code four hexadecimal scalar _)

/-- The quotes of strings. -/
def IsQuote (quote : Char) : Prop := quote = '\'' ∨ quote = '"'

theorem IsQuote.newline (known : IsQuote quote) : quote ≠ '\n' := by
  rcases known with rfl | rfl <;> decide

theorem IsQuote.unescaped (known : IsQuote quote) : quote ≠ '\\' := by
  rcases known with rfl | rfl <;> decide

theorem reads_quotedText (opening : Char) (known : IsQuote quote) (items : Items quote before (quote :: after)) :
    Reads (quotedText quote) (opening :: before) (fun _ => True) after := by
  have loop (start : Position) (limit : Nat) :
      Reads (quotedText.go quote start limit) before (fun _ => True) after := by
    generalize closing : quote :: after = behind at items
    induction items generalizing limit with
    | none s =>
      subst closing
      exact (reads_quotedText_end start known.newline limit).mono fun _ _ => trivial
    | more first rest ih =>
      exact (reads_quotedText_item known.unescaped first (fun limit => ih limit closing) limit).mono fun _ _ => trivial
  exact reads_here fun start => (reads_skip 1).bind fun _ _ => reads_steps fun limit => loop start limit

/-- A single character is read as one. -/
theorem reads_quotedText_single (opening : Char) (known : IsQuote quote) (item : Item quote before (quote :: after)) :
    Reads (quotedText quote) (opening :: before) (fun text => ∃ c, text = [c]) after := by
  refine reads_here fun start => (reads_skip 1).bind fun _ _ => reads_steps fun limit => ?_
  refine (reads_quotedText_item known.unescaped item (reads_quotedText_end start known.newline) limit).mono ?_
  rintro _ ⟨c, _, rfl, rfl⟩
  exact ⟨c, rfl⟩

theorem not_item_nil : ¬ Item quote [] after := nofun

theorem items_nil (items : Items quote [] after) : after = [] := by
  cases items with
  | none => rfl
  | more first rest => exact absurd first not_item_nil

/-- The text that has been read is as long as the string. -/
theorem silently_quotedText_go (start : Position) (limit : Nat) :
    Silently (quotedText.go quote start limit) fun text before after =>
      Items quote before (quote :: after) ∧ (text = [] → before = quote :: after) ∧
        ∀ c, text = [c] → Item quote before (quote :: after) := by
  induction limit with
  | zero => exact silently_throw _
  | succ limit ih =>
    -- One character or escape is in front of what the rest of the loop reads.
    have onward {first : Char} {before middle after text : List Char} (item : Item quote before middle)
        (rest : Items quote middle (quote :: after) ∧ (text = [] → middle = quote :: after) ∧
          ∀ c, text = [c] → Item quote middle (quote :: after)) :
        Items quote before (quote :: after) ∧ (first :: text = [] → before = quote :: after) ∧
          ∀ c, first :: text = [c] → Item quote before (quote :: after) := by
      refine ⟨.more item rest.1, nofun, fun c same => ?_⟩
      obtain ⟨-, rfl⟩ := List.cons.inj same
      exact rest.2.1 rfl ▸ item
    refine silently_peek fun next => ?_
    cases next with
    | none => exact silently_here fun stop => silently_reported (silently_pure fun _ => trivial)
    | some d =>
      dsimp only
      split
      · exact silently_here fun stop => silently_reported (silently_pure fun _ => trivial)
      next online =>
      split
      · next same =>
        refine (silently_skip 1).bind fun _ => silently_pure ?_
        rintro _ before rfl first
        obtain ⟨behind, rfl⟩ := List.head?_eq_some_iff.mp first
        subst same
        exact ⟨.none _, fun _ => rfl, nofun⟩
      next within =>
      split
      · next same =>
        subst same
        refine (silently_escape true).bind fun decoded => ih.bind fun tail => silently_pure ?_
        rintro s middle rest before ⟨loud, escaped⟩ first
        obtain ⟨c, rfl⟩ := Option.isSome_iff_exists.mp (loud rfl)
        obtain ⟨behind, rfl⟩ := List.head?_eq_some_iff.mp first
        exact onward (escaped rfl quote behind rfl) rest
      · next unescaped =>
        refine (silently_skip 1).bind fun _ => ih.bind fun tail => silently_pure ?_
        rintro s _ rest before rfl first
        obtain ⟨behind, rfl⟩ := List.head?_eq_some_iff.mp first
        exact onward (.plain within online unescaped behind) rest

theorem silently_quotedText (quote : Char) : Silently (quotedText quote) fun text before after =>
    ∃ opening inner, before = opening :: inner ∧ Items quote inner (quote :: after) ∧
      ∀ c, text = [c] → Item quote inner (quote :: after) := by
  refine silently_here fun start => (silently_skip 1).bind fun _ => silently_steps fun limit => ?_
  refine (silently_quotedText_go start limit).mono ?_
  rintro text _ after ⟨items, -, single⟩ before rfl
  cases before with
  | nil => cases items_nil items
  | cons opening inner => exact ⟨opening, inner, rfl, items, single⟩

theorem quoted_unique {after' : List Char} (known : IsQuote quote) (quoted : Quoted quote before after)
    (quoted' : Quoted quote before after') : after = after' := by
  obtain ⟨items⟩ := quoted
  obtain ⟨items'⟩ := quoted'
  have read := reads_quotedText quote known items
  exact read.unique (total_quotedText quote) (reads_quotedText quote known items')

theorem quoted_of_single (single : Single Apostrophe before after) : Quoted '\'' before after := by
  obtain ⟨rfl, item⟩ := single
  exact .quoted (.more item (.none _))

theorem single_head (single : Single Apostrophe before after) : ∃ inner, before = '\'' :: inner := by
  obtain ⟨rfl, -⟩ := single
  exact ⟨_, rfl⟩

theorem reads_quietChar (single : Single Apostrophe before after) :
    Reads quietChar before (fun found => found.isSome) after := by
  obtain @⟨_, inner, _, rfl, item⟩ := single
  have close (c : Char) : Reads (do if ← eat "'" then return some c else return none) ('\'' :: after)
      (fun found : Option Char => found.isSome) after := by
    refine (reads_eat "'" after).bind ?_
    rintro _ rfl
    exact reads_pure rfl
  have escaped {s : List Char} (item : Item '\'' ('\\' :: s) ('\'' :: after)) :
      Reads charInQuotes ('\\' :: s) (fun found => found.isSome) after := by
    refine reads_peek ?_
    rw [List.head?_cons]
    dsimp only
    rw [if_neg (by decide), if_pos rfl]
    refine (reads_escape false item).bind fun decoded some => ?_
    obtain ⟨c, rfl⟩ := Option.isSome_iff_exists.mp some
    exact close c
  refine (reads_eat "'" inner).bind ?_
  rintro _ rfl
  cases item with
  | plain within online unescaped =>
    refine reads_peek ?_
    rw [List.head?_cons]
    dsimp only
    rw [if_neg (not_or.mpr ⟨within, online⟩), if_neg unescaped]
    exact (reads_skip 1).bind fun _ _ => close _
  | letter known => exact escaped (.letter known _)
  | code four hexadecimal scalar => exact escaped (.code four hexadecimal scalar _)

theorem silently_charInQuotes : Silently charInQuotes fun found before after =>
    found.isSome → Item '\'' before ('\'' :: after) := by
  have close (c : Char) : Silently (do if ← eat "'" then return some c else return none)
      fun (found : Option Char) before after => found.isSome → before = '\'' :: after := by
    refine (silently_eat "'").bind fun eaten => ?_
    cases eaten with
    | true => exact silently_pure fun s before same _ => same
    | false => exact silently_pure fun s before _ => nofun
  refine silently_peek fun next => ?_
  cases next with
  | none => exact silently_pure fun s _ => nofun
  | some d =>
    dsimp only
    split
    · exact silently_pure fun s _ => nofun
    next plain =>
    obtain ⟨within, online⟩ := not_or.mp plain
    split
    · next same =>
      subst same
      refine (silently_escape false).bind fun decoded => ?_
      cases decoded with
      | none => exact silently_pure fun s before _ _ => nofun
      | some c =>
        refine (close c).mono ?_
        rintro found middle after closed before ⟨-, escaped⟩ first some
        obtain ⟨rest, rfl⟩ := List.head?_eq_some_iff.mp first
        exact closed some ▸ escaped rfl '\'' rest rfl
    · next unescaped =>
      refine (silently_skip 1).bind fun _ => (close d).mono ?_
      rintro found _ after closed before rfl first some
      obtain ⟨rest, rfl⟩ := List.head?_eq_some_iff.mp first
      have closed : rest = '\'' :: after := closed some
      exact closed ▸ .plain within online unescaped rest

theorem silently_quietChar : Silently quietChar fun found before after =>
    found.isSome → Single Apostrophe before after := by
  refine (silently_eat "'").bind fun eaten => ?_
  cases eaten with
  | true =>
    refine silently_charInQuotes.mono ?_
    rintro found inner after item before same some
    exact same ▸ .single rfl (item some)
  | false => exact silently_pure fun s before _ => nofun

/-- What is read as an interval. -/
def IsInterval (before after : List Char) : Prop :=
  ∃ lower behind middle, Single Apostrophe before lower ∧ Spacing lower ('-' :: behind) ∧ Spacing behind middle ∧
    Single Apostrophe middle after

theorem solid_minus (s : List Char) : Solid ('-' :: s) := solid_sign (by decide) (by decide) s

theorem solid_single (single : Single Apostrophe before after) : Solid before := by
  obtain ⟨inner, rfl⟩ := single_head single
  exact solid_sign (by decide) (by decide) inner

theorem reads_quietInterval (interval : IsInterval before after) :
    Reads quietInterval before (fun found => found.isSome) after := by
  obtain ⟨lower, behind, middle, lo, blanks, blanks', hi⟩ := interval
  refine Reads.attempt ?_ fun _ some => some
  refine (reads_quietChar lo).bind fun first some => ?_
  obtain ⟨lo, rfl⟩ := Option.isSome_iff_exists.mp some
  refine (reads_skipSpacing false blanks (solid_minus behind)).bind fun _ _ => ?_
  refine (reads_eat "-" behind).bind ?_
  rintro _ rfl
  refine (reads_skipSpacing false blanks' (solid_single hi)).bind fun _ _ => ?_
  refine (reads_quietChar hi).bind fun second some => reads_pure ?_
  rw [Option.isSome_map]
  exact some

theorem silently_quietInterval : Silently quietInterval fun found before after =>
    if found.isSome then IsInterval before after else after = before := by
  apply Silently.tried
  refine silently_quietChar.bind fun first => (silently_skipSpacing false).bind fun _ => ?_
  cases first with
  | none => exact silently_pure fun _ _ _ _ _ => nofun
  | some lo =>
    refine (silently_eat "-").bind fun separated => ?_
    cases separated with
    | false => exact silently_pure fun _ _ _ _ _ _ _ => nofun
    | true =>
      refine (silently_skipSpacing false).bind fun _ => silently_quietChar.bind fun second => silently_pure ?_
      rintro after middle single behind ⟨-, blanks'⟩ _ rfl lower ⟨-, blanks⟩ before lo some
      rw [Option.isSome_map] at some
      have hi := single some
      obtain ⟨inner, rfl⟩ := single_head hi
      exact ⟨lower, behind, _, lo rfl, blanks (List.cons_ne_nil _ _), blanks' (List.cons_ne_nil _ _), hi⟩

/-- Where no interval can be read, nothing is read. -/
theorem reads_quietInterval_none (other : ∀ after, ¬ IsInterval before after) :
    Reads quietInterval before (fun found => found = none) before := by
  rintro c found c' rfl ran
  have read := (silently_quietInterval c found c' ran).2.2
  obtain ⟨_, _, ran', moved⟩ := ends_quietInterval c
  cases ran.symm.trans ran'
  cases found with
  | none =>
    have same : c' = c := moved
    rw [same]
    exact ⟨rfl, rfl, rfl, rfl⟩
  | some interval =>
    obtain ⟨⟨count, rfl⟩, -⟩ := moved
    exact absurd (read rfl) (other _)

end Read

end Packrat
