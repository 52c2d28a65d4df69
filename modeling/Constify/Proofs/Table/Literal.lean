import Mathlib.Data.List.TakeWhile
import Constify.Proofs.Table.ModuleText

/-!
# The string literals that entries come from

* `ObjectLiteral.contents?`, `ObjectLiteral.stringAt?` : the string literal at the front of a text, which
  only the quote that opened it closes;
* `ObjectLiteral.Place` : a place of a body where a pair is read, with the two quotes around its value;
* `ObjectLiteral.exists_places` : the pairs of a body are read at places that follow each other;
* `ObjectLiteral.Place.written?_eq_iff` : the pair has the whole literal if the two quotes are the same;
* `ObjectLiteral.Place.prefix_written` : else it has the part before the first quote of the other kind;
* `Table.exists_places_of_ofModule?` : the entries of a module's table are such pairs;
* `Table.cuts_flavorSource` : a value with an apostrophe between double quotes is cut.
-/

namespace Constify

namespace ObjectLiteral

/-! ## String literals -/

/-- What a string literal holds, in a text that follows its opening quote `q`: everything up to the next
`q`, where a backslash takes the character behind it (or the line break) along. A line break ends the search. -/
def contents? (q : Char) : Text → Option Text
  | [] => none
  | '\\' :: '\r' :: '\n' :: cs => (contents? q cs).map ("\\\r\n".toList ++ ·)
  | '\\' :: c :: cs => (contents? q cs).map ('\\' :: c :: ·)
  | c :: cs =>
    if c = q then some []
    else if c = '\\' ∨ c = '\r' ∨ c = '\n' then none
    else (contents? q cs).map (c :: ·)

def stringAt? : Text → Option Text
  | [] => none
  | q :: cs => if isQuote q then contents? q cs else none

/-- What a character does that is no backslash. -/
theorem contents?_of_ne {c : Char} (hc : c ≠ '\\') (q : Char) (r : Text) :
    contents? q (c :: r) =
      if c = q then some [] else if c = '\r' ∨ c = '\n' then none else (contents? q r).map (c :: ·) := by
  conv_lhs => unfold contents?
  split
  · next h => cases h
  · next h => cases h; exact absurd rfl hc
  · next h => cases h; exact absurd rfl hc
  · next h => cases h; simp only [hc, false_or]

theorem contents?_self {q : Char} (hq : isQuote q = true) (r : Text) : contents? q (q :: r) = some [] := by
  have hne : q ≠ '\\' := by rintro rfl; revert hq; decide
  rw [contents?_of_ne hne, if_pos rfl]

theorem contents?_cons {q c : Char} (hq : c ≠ q) (hc : isQuote c = true ∨ isValueChar c = true) (r : Text) :
    contents? q (c :: r) = (contents? q r).map (c :: ·) := by
  have hother : c ≠ '\\' ∧ c ≠ '\r' ∧ c ≠ '\n' := by
    refine ⟨?_, ?_, ?_⟩ <;> rintro rfl <;> revert hc <;> decide
  rw [contents?_of_ne hother.1, if_neg hq, if_neg (by simp [hother])]

theorem contents?_append {q : Char} {v : Text} (hq : isQuote q = true) (hv : ∀ c ∈ v, isValueChar c = true)
    (r : Text) : contents? q (v ++ r) = (contents? q r).map (v ++ ·) := by
  induction v with
  | nil => cases h : contents? q r <;> simp [h]
  | cons c cs ih =>
    have hc : isValueChar c = true := hv c List.mem_cons_self
    have hne : c ≠ q := by
      rintro rfl
      simp [isValueChar, hq] at hc
    rw [List.cons_append, contents?_cons hne (.inr hc), ih fun d hd => hv d (List.mem_cons_of_mem _ hd),
      Option.map_map]
    rfl

/-! ## Places -/

/-- A place of a body: text that is passed over, then a pair `key: "value"` in which either quote may be
of either kind. -/
structure Place where
  skipped : Text
  entry : Entry
  gap : Text
  gap' : Text
  opening : Char
  closing : Char
  key_valid : isIdentifier entry.key = true
  gap_blanks : Blanks gap
  gap'_blanks : Blanks gap'
  opening_quote : isQuote opening = true
  closing_quote : isQuote closing = true
  literal_plain : ∀ c ∈ entry.literal, isValueChar c = true

namespace Place

def fromValue (p : Place) (after : Text) : Text := p.opening :: (p.entry.literal ++ p.closing :: after)

def text (p : Place) : Text :=
  p.skipped ++ (p.entry.key ++ (p.gap ++ ':' :: (p.gap' ++ p.fromValue [])))

/-- What the string literal holds that is written at the place, if the text goes on with `after`. -/
def written? (p : Place) (after : Text) : Option Text := stringAt? (p.fromValue after)

theorem text_append (p : Place) (after : Text) :
    p.text ++ after = p.skipped ++ (p.entry.key ++ (p.gap ++ ':' :: (p.gap' ++ p.fromValue after))) := by
  simp only [text, fromValue, List.append_assoc, List.cons_append, List.nil_append]

variable (p : Place) {after w : Text}

theorem written?_eq (after : Text) :
    p.written? after = (contents? p.opening (p.closing :: after)).map (p.entry.literal ++ ·) := by
  rw [written?, fromValue, stringAt?, if_pos p.opening_quote,
    contents?_append p.opening_quote p.literal_plain]

theorem written?_of_eq (h : p.closing = p.opening) : p.written? after = some p.entry.literal := by
  rw [written?_eq, h, contents?_self p.opening_quote, Option.map_some, List.append_nil]

theorem exists_of_written? (h : p.closing ≠ p.opening) (hw : p.written? after = some w) :
    ∃ s, w = p.entry.literal ++ p.closing :: s := by
  rw [written?_eq, contents?_cons h (.inl p.closing_quote), Option.map_map] at hw
  obtain ⟨s, -, rfl⟩ := Option.map_eq_some_iff.mp hw
  exact ⟨s, rfl⟩

/-- The pair has the whole literal that is written there exactly if its two quotes are the same. -/
theorem written?_eq_iff : p.written? after = some p.entry.literal ↔ p.closing = p.opening := by
  refine ⟨fun hw => ?_, p.written?_of_eq⟩
  by_contra h
  obtain ⟨s, hs⟩ := p.exists_of_written? h hw
  exact absurd (congrArg List.length hs) (by simp)

/-- The pair has a front of the literal that is written there, and all of it exactly if the literal
holds no quote of the other kind. -/
theorem prefix_written (hw : p.written? after = some w) :
    p.entry.literal <+: w ∧ (p.entry.literal = w ↔ ∀ c ∈ w, isQuote c = true → c = p.opening) := by
  by_cases h : p.closing = p.opening
  · obtain rfl : p.entry.literal = w := Option.some.inj ((p.written?_of_eq h).symm.trans hw)
    have hplain : ∀ c ∈ p.entry.literal, isQuote c = true → c = p.opening := by
      intro c hc hquote
      have := p.literal_plain c hc
      simp [isValueChar, hquote] at this
    exact ⟨List.prefix_rfl, iff_of_true rfl hplain⟩
  · obtain ⟨s, rfl⟩ := p.exists_of_written? h hw
    refine ⟨List.prefix_append _ _, iff_of_false (fun heq => ?_) fun hall => ?_⟩
    · exact absurd (congrArg List.length heq) (by simp)
    · exact h (hall p.closing (by simp) p.closing_quote)

end Place

/-! ## Pairs stand at places -/

theorem exists_of_valueAt? {t v r : Text} (h : valueAt? t = some (v, r)) :
    ∃ q q', isQuote q = true ∧ isQuote q' = true ∧ (∀ c ∈ v, isValueChar c = true) ∧
      t = q :: (v ++ q' :: r) := by
  cases t with
  | nil => cases h
  | cons q cs =>
    rw [valueAt?] at h
    split at h
    · next hq =>
      split at h
      · next q' rest hrest =>
        split at h
        · next hq' =>
          cases h
          refine ⟨q, q', hq, hq', fun c hc => List.mem_takeWhile_imp hc, ?_⟩
          rw [← hrest, List.takeWhile_append_dropWhile]
        · cases h
      · cases h
    · cases h

theorem exists_of_pairAt? {t r : Text} {e : Entry} (h : pairAt? t = some (e, r)) :
    ∃ p : Place, p.skipped = [] ∧ p.entry = e ∧ t = p.text ++ r := by
  cases t with
  | nil => cases h
  | cons c cs =>
    rw [pairAt?] at h
    split at h
    · next hc =>
      split at h
      · next s hs =>
        obtain ⟨⟨v, rest⟩, hvalue, heq⟩ := Option.map_eq_some_iff.mp h
        obtain ⟨rfl, rfl⟩ := Prod.mk.inj heq
        obtain ⟨q, q', hq, hq', hv, hfrom⟩ := exists_of_valueAt? hvalue
        have hcs : cs = identRun cs ++ ((cs.dropWhile isIdentChar).takeWhile isBlank ++
            ':' :: (s.takeWhile isBlank ++ q :: (v ++ q' :: rest))) := by
          rw [← hfrom, Text.takeWhile_append_trimStart, ← hs, Text.takeWhile_append_trimStart, identRun,
            List.takeWhile_append_dropWhile]
        refine ⟨
          { skipped := []
            entry := ⟨c :: identRun cs, v⟩
            gap := (cs.dropWhile isIdentChar).takeWhile isBlank
            gap' := s.takeWhile isBlank
            opening := q
            closing := q'
            key_valid := ?_
            gap_blanks := fun d hd => List.mem_takeWhile_imp hd
            gap'_blanks := fun d hd => List.mem_takeWhile_imp hd
            opening_quote := hq
            closing_quote := hq'
            literal_plain := hv }, rfl, rfl, ?_⟩
        · rw [isIdentifier, hc, Bool.true_and, List.all_eq_true]
          exact fun d hd => List.mem_takeWhile_imp hd
        · rw [Place.text_append]
          exact congrArg (c :: ·) hcs
      · cases h
    · cases h

theorem exists_places (body : Text) :
    ∃ (places : List Place) (rest : Text), body = places.flatMap Place.text ++ rest ∧
      pairs body = places.map Place.entry := by
  induction body using pairs.induct with
  | case1 => exact ⟨[], [], rfl, by rw [pairs]; rfl⟩
  | case2 c cs e r hpair _ ih =>
    obtain ⟨p, -, rfl, htext⟩ := exists_of_pairAt? hpair
    obtain ⟨places, rest, rfl, hpairs⟩ := ih
    refine ⟨p :: places, rest, ?_, ?_⟩
    · rw [htext, List.flatMap_cons, List.append_assoc]
    · rw [pairs_of_pairAt? hpair, hpairs, List.map_cons]
  | case3 c cs hnone ih =>
    -- the character is passed over in front of the next place
    obtain ⟨places, rest, rfl, hpairs⟩ := ih
    have hskip := pairs_of_not_pairAt? hnone
    cases places with
    | nil => exact ⟨[], c :: rest, rfl, hskip.trans hpairs⟩
    | cons p places =>
      exact ⟨{ p with skipped := c :: p.skipped } :: places, rest, rfl, hskip.trans hpairs⟩

end ObjectLiteral

namespace Table

open ObjectLiteral

theorem exists_body_of_ofModule? {name source : Text} {t : Table} (h : ofModule? name source = .ok (some t)) :
    ∃ body, body? name source = some body ∧ t.entries = pairs body := by
  rw [ofModule?] at h
  cases hbody : body? name source with
  | none => simp [hbody] at h
  | some body =>
    rw [hbody, Option.map_some, Option.getD_some] at h
    split at h
    · cases h
    · cases htable : ofEntries name (pairs body) with
      | error fault => simp [htable, Except.map] at h
      | ok t' =>
        rw [htable] at h
        cases h
        exact ⟨body, rfl, (identifier_of_ofEntries htable).2⟩

/-- **What the entries of a module's table are.** They are read at places of the object's body that
follow each other. At each place the entry has the whole string literal that is written there exactly if the
quote that ends it is the one that opened it; else it has the front of the literal before the first quote of
the other kind. -/
theorem exists_places_of_ofModule? {name source : Text} {t : Table} (h : ofModule? name source = .ok (some t)) :
    ∃ (body : Text) (places : List Place) (rest : Text), body? name source = some body ∧
      body = places.flatMap Place.text ++ rest ∧ t.entries = places.map Place.entry ∧
        ∀ before p after, places = before ++ p :: after →
          (p.written? (after.flatMap Place.text ++ rest) = some p.entry.literal ↔ p.closing = p.opening) ∧
            ∀ w ∈ p.written? (after.flatMap Place.text ++ rest), p.entry.literal <+: w ∧
              (p.entry.literal = w ↔ ∀ c ∈ w, isQuote c = true → c = p.opening) := by
  obtain ⟨body, hbody, hentries⟩ := exists_body_of_ofModule? h
  obtain ⟨places, rest, htext, hpairs⟩ := ObjectLiteral.exists_places body
  exact ⟨body, places, rest, hbody, htext, hentries.trans hpairs,
    fun _ p _ _ => ⟨p.written?_eq_iff, fun w hw => p.prefix_written hw⟩⟩

/-- A value with an apostrophe between double quotes, then a value between single quotes. -/
def flavorSource : Text := "const FLAVORS = \x7b sweet: \"it's\", sour: 'no' \x7d;".toList

def flavorBody : Text := " sweet: \"it's\", sour: 'no' ".toList

def flavorTable : Table where
  identifier := "FLAVORS".toList
  entries := [⟨"sweet".toList, "it".toList⟩, ⟨"sour".toList, "no".toList⟩]
  identifier_valid := by decide
  entries_ne_nil := by decide
  entries_valid := by decide

theorem body?_flavorSource : body? "FLAVORS".toList flavorSource = some flavorBody := by decide

theorem ofModule?_flavorSource : ofModule? "FLAVORS".toList flavorSource = .ok (some flavorTable) := by
  have hpairs : pairs flavorBody = flavorTable.entries := by decide +kernel
  rw [ofModule?, body?_flavorSource, Option.map_some, Option.getD_some, hpairs]
  exact congrArg (Except.map some) flavorTable.ofEntries_entries

theorem exists_places_flavorSource :
    ofModule? "FLAVORS".toList flavorSource = .ok (some flavorTable) ∧
      ∃ (body : Text) (places : List Place) (rest : Text), body? "FLAVORS".toList flavorSource = some body ∧
        body = places.flatMap Place.text ++ rest ∧ flavorTable.entries = places.map Place.entry ∧
          ∀ before p after, places = before ++ p :: after →
            (p.written? (after.flatMap Place.text ++ rest) = some p.entry.literal ↔ p.closing = p.opening) ∧
              ∀ w ∈ p.written? (after.flatMap Place.text ++ rest), p.entry.literal <+: w ∧
                (p.entry.literal = w ↔ ∀ c ∈ w, isQuote c = true → c = p.opening) :=
  ⟨ofModule?_flavorSource, exists_places_of_ofModule? ofModule?_flavorSource⟩

/-- The value `it's` is cut at its apostrophe, though no string literal of the body holds `it`. -/
theorem cuts_flavorSource :
    ofModule? "FLAVORS".toList flavorSource = .ok (some flavorTable) ∧
      ⟨"sweet".toList, "it".toList⟩ ∈ flavorTable.entries ∧
        body? "FLAVORS".toList flavorSource = some flavorBody ∧
        (∀ v, v <:+ flavorBody → stringAt? v ≠ some "it".toList) ∧
          ∃ v, "sweet: ".toList ++ v <:+ flavorBody ∧ stringAt? v = some "it's".toList := by
  have hnone : ∀ v ∈ flavorBody.tails, stringAt? v ≠ some "it".toList := by decide
  exact ⟨ofModule?_flavorSource, by decide, body?_flavorSource,
    fun v hv => hnone v ((List.mem_tails _ _).mpr hv),
    "\"it's\", sour: 'no' ".toList, by decide, by decide⟩

end Table

end Constify
