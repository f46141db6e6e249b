import Packrat.Proofs.Text.Endings
import Packrat.Text.LineReader

/-! # Reading bytes agrees with reading text

In UTF-8 the byte `0x0A` stands for a newline and nothing else, so a line of the bytes is a line of the text. Decoding
line by line therefore loses nothing of bytes that are a text, and of other bytes exactly what begins with the first
line that is not UTF-8.
-/

namespace Packrat

/-- The bytes of characters. -/
def utf8 (chars : List Char) : List UInt8 := chars.flatMap String.utf8EncodeChar

@[simp] theorem utf8_nil : utf8 [] = [] := rfl

theorem utf8_append (first second : List Char) : utf8 (first ++ second) = utf8 first ++ utf8 second :=
  List.flatMap_append

theorem newline_mem_utf8EncodeChar {c : Char} : 0x0A ∈ String.utf8EncodeChar c ↔ c = '\n' := by
  constructor
  · intro member
    have code : c.val.toNat = 10 := by
      -- All bytes of a longer encoding are 0x80 or more.
      have byte {n : Nat} : 0x0A = UInt8.ofNat n ↔ 10 = n % 256 := by
        rw [← UInt8.toNat_inj, UInt8.toNat_ofNat']
        rfl
      simp only [String.utf8EncodeChar] at member
      split at member
      · simp only [List.mem_singleton, byte] at member
        omega
      · split at member
        · simp only [List.mem_cons, List.not_mem_nil, or_false, byte] at member
          omega
        · split at member <;> simp only [List.mem_cons, List.not_mem_nil, or_false, byte] at member <;> omega
    exact Char.ext (UInt32.toNat_inj.mp code)
  · rintro rfl
    exact List.mem_cons_self

theorem newline_mem_utf8 {chars : List Char} : 0x0A ∈ utf8 chars ↔ '\n' ∈ chars := by
  simp [utf8, newline_mem_utf8EncodeChar]

theorem mk_utf8 (chars : List Char) : ByteArray.mk (utf8 chars).toArray = chars.utf8Encode :=
  ByteArray.ext List.data_toByteArray.symm

theorem toUTF8_eq (text : String) : text.toUTF8.data.toList = utf8 text.toList := by
  rw [String.toUTF8_eq_toByteArray, ← String.utf8Encode_toList, ← mk_utf8]

theorem isValidUTF8_iff {bytes : List UInt8} :
    (ByteArray.mk bytes.toArray).IsValidUTF8 ↔ ∃ chars, bytes = utf8 chars := by
  constructor
  · rintro ⟨chars, same⟩
    rw [← mk_utf8] at same
    exact ⟨chars, by simpa using same⟩
  · rintro ⟨chars, rfl⟩
    exact ⟨chars, mk_utf8 chars⟩

namespace LineReader

theorem decode_utf8 (chars : List Char) : decode (utf8 chars) = .ok chars := by
  rw [decode, mk_utf8, List.utf8Decode?_utf8Encode]

theorem decode_invalid {line : List UInt8} (invalid : ¬ ∃ chars, line = utf8 chars) :
    decode line = .error Source.invalidBytes := by
  rw [← isValidUTF8_iff, ← ByteArray.isSome_utf8Decode?_iff, Option.not_isSome_iff_eq_none] at invalid
  rw [decode, invalid]

end LineReader

namespace Source

/-- `line` is the first line of `line ++ rest`: it ends at its only `0x0A`, or with the bytes. -/
def IsLine (line rest : List UInt8) : Prop := ∃ body, 0x0A ∉ body ∧ (line = body ++ [0x0A] ∨ line = body ∧ rest = [])

theorem IsLine.cons {b : UInt8} {line rest : List UInt8} (inside : b ≠ 0x0A) (whole : IsLine line rest) :
    IsLine (b :: line) rest := by
  obtain ⟨body, free, ends⟩ := whole
  refine ⟨b :: body, by simp [free, Ne.symm inside], ?_⟩
  obtain rfl | ⟨rfl, last⟩ := ends
  · exact .inl rfl
  · exact .inr ⟨rfl, last⟩

/-- What a reader takes at a time is a line. -/
theorem isLine_take (bytes : List UInt8) :
    IsLine (bytes.take (LineReader.lineLength bytes)) (bytes.drop (LineReader.lineLength bytes)) := by
  induction bytes with
  | nil => exact ⟨[], List.not_mem_nil, .inr ⟨rfl, rfl⟩⟩
  | cons b bytes ih =>
    by_cases newline : b = 0x0A
    · subst newline
      exact ⟨[], List.not_mem_nil, .inl rfl⟩
    · have length : LineReader.lineLength (b :: bytes) = LineReader.lineLength bytes + 1 := by
        simp [LineReader.lineLength, newline]
      rw [length]
      exact ih.cons newline

/-- To prove something of bytes, take one line after the other. -/
theorem lines_induction {motive : List UInt8 → Prop} (bytes : List UInt8) (nil : motive [])
    (line : ∀ {line rest}, line ≠ [] → IsLine line rest → motive rest → motive (line ++ rest)) : motive bytes := by
  induction length : bytes.length using Nat.strongRecOn generalizing bytes with
  | ind n ih =>
    cases bytes with
    | nil => exact nil
    | cons b bytes =>
      rw [← List.take_append_drop (LineReader.lineLength (b :: bytes)) (b :: bytes)]
      refine line (by simp [LineReader.lineLength]) (isLine_take _) (ih _ ?_ _ rfl)
      rw [← length, List.length_drop, List.length_cons, LineReader.lineLength]
      omega

theorem byteLines_append {line rest : List UInt8} (whole : IsLine line rest) (some : line ≠ []) :
    byteLines (line ++ rest) = line :: byteLines rest := by
  obtain ⟨body, inside, ends⟩ := whole
  induction body generalizing line with
  | nil =>
    obtain rfl | ⟨rfl, -⟩ := ends
    · rfl
    · exact absurd rfl some
  | cons b body ih =>
    obtain ⟨plain, inside⟩ := not_or.mp (List.mem_cons.not.mp inside)
    have step {more line : List UInt8} {lines : List (List UInt8)} (cut : byteLines more = line :: lines) :
        byteLines (b :: more) = (b :: line) :: lines := by
      rw [byteLines, if_neg (Ne.symm plain), cut]
    obtain rfl | ⟨rfl, rfl⟩ := ends
    · exact step (ih (by simp) inside (.inl rfl))
    · cases body with
      | nil => exact if_neg (Ne.symm plain)
      | cons c body => exact step (ih (by simp) inside (.inr ⟨rfl, rfl⟩))

/-- The first line is decoded on its own. -/
theorem ofBytes_append {line rest : List UInt8} (whole : IsLine line rest) :
    ofBytes (line ++ rest) = match LineReader.decode line with
      | .error message => { chars := [], failure := message }
      | .ok chars => { ofBytes rest with chars := chars ++ (ofBytes rest).chars } := by
  cases line with
  | nil =>
    obtain ⟨body, -, ends⟩ := whole
    obtain same | ⟨-, rfl⟩ := ends
    · simp at same
    · rfl
  | cons b line =>
    rw [ofBytes, byteLines_append whole (by simp), ofLines, LineReader.decode, ofBytes]
    cases (ByteArray.mk (b :: line).toArray).utf8Decode? <;> rfl

/-- The bytes of a text give the text. -/
theorem ofBytes_utf8 (chars : List Char) : ofBytes (utf8 chars) = { chars } := by
  induction length : chars.length using Nat.strongRecOn generalizing chars with
  | ind n ih =>
    by_cases newline : '\n' ∈ chars
    · obtain ⟨body, rest, rfl, inside⟩ := List.eq_append_cons_of_mem newline
      have split : body ++ '\n' :: rest = (body ++ ['\n']) ++ rest := by simp
      have whole : IsLine (utf8 (body ++ ['\n'])) (utf8 rest) :=
        ⟨utf8 body, newline_mem_utf8.not.mpr inside, .inl (utf8_append ..)⟩
      have shorter : rest.length < n := by
        simp only [List.length_append, List.length_cons] at length
        omega
      rw [split, utf8_append, ofBytes_append whole, LineReader.decode_utf8, ih _ shorter rest rfl]
    · have whole : IsLine (utf8 chars) [] := ⟨_, newline_mem_utf8.not.mpr newline, .inr ⟨rfl, rfl⟩⟩
      rw [← List.append_nil (utf8 chars), ofBytes_append whole, LineReader.decode_utf8]
      simp [ofBytes, byteLines, ofLines]

/-- A line with bytes behind it is complete. -/
theorem getLast?_of_isLine {chars : List Char} {rest : List UInt8} (whole : IsLine (utf8 chars) rest)
    (more : rest ≠ []) : chars.getLast? = some '\n' := by
  obtain ⟨body, -, ends⟩ := whole
  obtain same | ⟨-, rfl⟩ := ends
  · obtain rfl | ⟨before, c, rfl⟩ := List.eq_nil_or_concat chars
    · simp at same
    · have last := congrArg List.getLast? same
      have ends := List.getLast?_eq_some_getLast (String.utf8EncodeChar_ne_nil (c := c))
      rw [List.concat_eq_append, utf8_append, List.getLast?_concat, List.getLast?_append] at last
      simp only [utf8, List.flatMap_singleton, ends, Option.some_or] at last
      rw [last] at ends
      rw [List.concat_eq_append, List.getLast?_concat, newline_mem_utf8EncodeChar.mp (List.mem_of_getLast? ends)]
  · exact absurd rfl more

/-- Of bytes that are not UTF-8 the lines before the first one that is not are left. -/
theorem ofBytes_invalid {bytes : List UInt8} (invalid : ¬ ∃ chars, bytes = utf8 chars) :
    ∃ before line rest, bytes = utf8 before ++ (line ++ rest) ∧ (before = [] ∨ before.getLast? = some '\n') ∧
      IsLine line rest ∧ (¬ ∃ chars, line = utf8 chars) ∧
      ofBytes bytes = { chars := before, failure := some invalidBytes } := by
  induction bytes using lines_induction with
  | nil => exact absurd ⟨[], rfl⟩ invalid
  | @line line rest _ whole ih =>
    by_cases valid : ∃ chars, line = utf8 chars
    · obtain ⟨first, rfl⟩ := valid
      obtain ⟨before, line, others, rfl, complete, broken, bad, source⟩ := ih (by
        rintro ⟨chars, rfl⟩
        exact invalid ⟨first ++ chars, (utf8_append ..).symm⟩)
      refine ⟨first ++ before, line, others, by simp [utf8_append], .inr ?_, broken, bad, ?_⟩
      · obtain rfl | complete := complete
        · rw [List.append_nil]
          refine getLast?_of_isLine whole fun empty => bad ⟨[], ?_⟩
          exact (List.append_eq_nil_iff.mp (List.append_eq_nil_iff.mp empty).2).1
        · simp [complete]
      · rw [ofBytes_append whole, LineReader.decode_utf8, source]
    · exact ⟨[], line, rest, rfl, .inl rfl, whole, valid, by rw [ofBytes_append whole, LineReader.decode_invalid valid]⟩

end Source

namespace LineReader

variable {r r' : LineReader} {source source' : Source}

theorem next_line {bytes : List UInt8} (some : bytes ≠ []) : next ⟨[], bytes⟩ =
    match decode (bytes.take (lineLength bytes)) with
    | .error message => (.some (.error message), ⟨[], bytes.drop (lineLength bytes)⟩)
    | .ok line => next ⟨line, bytes.drop (lineLength bytes)⟩ := by
  cases bytes with
  | nil => exact absurd rfl some
  | cons b bytes => cases decoded : decode ((b :: bytes).take (lineLength (b :: bytes))) <;> rw [next, decoded]

theorem Delivers.of_next_eq (delivers : Delivers r' source) (same : r.next = r'.next) : Delivers r source := by
  cases delivers with
  | ended asked => exact .ended (same.trans asked)
  | failed asked => exact .failed (same.trans asked)
  | char asked rest => exact .char (same.trans asked) rest

/-- What is pending comes first. -/
theorem Delivers.pending {bytes : List UInt8} (delivers : Delivers ⟨[], bytes⟩ source) (chars : List Char) :
    Delivers ⟨chars, bytes⟩ { source with chars := chars ++ source.chars } := by
  induction chars with
  | nil => exact delivers
  | cons c chars ih => exact .char (by rw [next]) ih

theorem delivers_ofBytes (bytes : List UInt8) : Delivers (.ofBytes bytes) (.ofBytes bytes) := by
  induction length : bytes.length using Nat.strongRecOn generalizing bytes with
  | ind n ih =>
    cases bytes with
    | nil => exact .ended (by rw [LineReader.ofBytes, next])
    | cons b bytes =>
      have line := next_line (List.cons_ne_nil b bytes)
      have source := Source.ofBytes_append (Source.isLine_take (b :: bytes))
      rw [List.take_append_drop] at source
      rw [source]
      cases decoded : decode ((b :: bytes).take (lineLength (b :: bytes))) with
      | error message =>
        rw [decoded] at line
        exact .failed line
      | ok chars =>
        rw [decoded] at line
        have shorter : ((b :: bytes).drop (lineLength (b :: bytes))).length < n := by
          rw [← length, List.length_drop, List.length_cons, lineLength]
          omega
        exact ((ih _ shorter _ rfl).pending chars).of_next_eq line

theorem Delivers.unique (first : Delivers r source) (second : Delivers r source') : source = source' := by
  induction first generalizing source' with
  | ended asked => cases second <;> simp_all
  | failed asked => cases second <;> simp_all
  | char asked _ ih =>
    cases second with
    | ended asked' => simp_all
    | failed asked' => simp_all
    | char asked' rest =>
      cases asked.symm.trans asked'
      rw [ih rest]

end LineReader

namespace Stream

/-- A stream over a source that does not fail never has a failure to tell. -/
theorem never_fails {source : Source} (whole : source.failure = none) {requests : List Request} {replies : List Reply}
    {s : Stream} (served : (ofSource source).serveAll requests = .ok (replies, s)) :
    s.error = none ∧ ∀ met, .failure met ∈ replies → met = none := by
  have same := serveAll_calm (ofSource source) requests
  rw [calm_eq_self_iff.mpr (readable_ofSource whole), served] at same
  obtain ⟨kept, calm⟩ := Prod.mk.inj (Except.ok.inj same)
  refine ⟨(calm_eq_self_iff.mp calm.symm).2, fun met member => ?_⟩
  rw [kept] at member
  obtain ⟨reply, -, told⟩ := List.mem_map.mp member
  cases reply with
  | answer given => cases told
  | failure met => exact (Reply.failure.inj told).symm

/-- The stream serves all requests as one over the text does, but for a failure behind the text. That is met with the
first look past the text, and there to be taken once. -/
structure FailsBehind (s : Stream) (text message : String) : Prop where
  served (requests : List Request) : (s.serveAll requests).map (fun done => (done.1.map Reply.calm, done.2.calm)) =
    (ofString text).serveAll requests
  taken {requests : List Request} {replies : List Reply} {s' : Stream}
    (ran : s.serveAll requests = .ok (replies, s')) (found : String) : s'.takeError.1 = some found ↔
      found = message ∧ TextCursor.looksPast requests (.ofText (Newline.normalize text.toList)) = true ∧
      ∀ earlier, earlier ++ [.takeError] <+: requests →
        TextCursor.looksPast earlier (.ofText (Newline.normalize text.toList)) = false

theorem failsBehind_ofSource (text message : String) :
    (ofSource { chars := text.toList, failure := some message }).FailsBehind text message where
  served requests := (serveAll_calm _ requests).symm
  taken ran found := (TextCursor.follows_ofSource _).error_waiting rfl rfl ran found

/-- A reader delivers the source of its bytes. The bytes of a text give the stream over the text, which never has a
failure to tell. Of other bytes the complete lines before the first line that is not UTF-8 are a text, and the stream
fails behind it. -/
theorem reads_bytes_as_text :
    (∀ bytes source, LineReader.Delivers (.ofBytes bytes) source ↔ source = .ofBytes bytes) ∧
    (∀ text : String, ofSource (.ofBytes text.toUTF8.data.toList) = ofString text ∧
      ∀ requests replies s, (ofString text).serveAll requests = .ok (replies, s) →
        s.error = none ∧ ∀ met, .failure met ∈ replies → met = none) ∧
    ∀ bytes : List UInt8, ¬ (ByteArray.mk bytes.toArray).IsValidUTF8 → ∃ (text : String) (line rest : List UInt8),
      bytes = text.toUTF8.data.toList ++ (line ++ rest) ∧ (text.toList = [] ∨ text.toList.getLast? = some '\n') ∧
      Source.IsLine line rest ∧ ¬ (ByteArray.mk line.toArray).IsValidUTF8 ∧
      (ofSource (.ofBytes bytes)).FailsBehind text Source.invalidBytes := by
  refine ⟨fun bytes source => ?_, fun text => ⟨?_, fun requests replies s => never_fails rfl⟩, fun bytes invalid => ?_⟩
  · refine ⟨fun delivers => delivers.unique (LineReader.delivers_ofBytes bytes), ?_⟩
    rintro rfl
    exact LineReader.delivers_ofBytes bytes
  · rw [toUTF8_eq, Source.ofBytes_utf8]
    rfl
  · rw [isValidUTF8_iff] at invalid
    obtain ⟨before, line, rest, split, complete, whole, broken, source⟩ := Source.ofBytes_invalid invalid
    refine ⟨.ofList before, line, rest, ?_, ?_, whole, isValidUTF8_iff.not.mpr broken, ?_⟩
    · rw [toUTF8_eq, String.toList_ofList, split]
    · rwa [String.toList_ofList]
    · have failing := failsBehind_ofSource (.ofList before) Source.invalidBytes
      rw [String.toList_ofList] at failing
      rwa [source]

end Stream

namespace Sample

/-- A line, one that is not UTF-8, and another one. -/
def brokenBytes : List UInt8 := [0x61, 0x0A, 0xFF, 0x0A, 0x62]

/-- Asks for the failure before, right behind and after a look past the first line. -/
def askingForFailure : List Request :=
  [.operation .readLine, .takeError, .operation .atEnd, .takeError, .operation .read, .takeError]

theorem brokenBytes_served :
    ((Stream.ofSource (.ofBytes brokenBytes)).serveAll askingForFailure).map (·.1) =
      .ok [.answer (.line (some ['a'])), .failure none, .answer (.flag true), .failure (some Source.invalidBytes),
        .answer (.char none), .failure none] ∧
    ¬ (ByteArray.mk brokenBytes.toArray).IsValidUTF8 ∧
    ∃ (text : String) (line rest : List UInt8),
      brokenBytes = text.toUTF8.data.toList ++ (line ++ rest) ∧
      (text.toList = [] ∨ text.toList.getLast? = some '\n') ∧
      Source.IsLine line rest ∧ ¬ (ByteArray.mk line.toArray).IsValidUTF8 ∧
      (Stream.ofSource (.ofBytes brokenBytes)).FailsBehind text Source.invalidBytes :=
  ⟨by decide, by decide, Stream.reads_bytes_as_text.2.2 brokenBytes (by decide)⟩

end Sample

end Packrat
