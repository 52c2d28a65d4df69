import Mathlib.Data.List.TakeWhile
import Mathlib.Tactic
import Constify.Import.Declaration
import Constify.Proofs.Identifier.Token
import Constify.Proofs.Text.Blank
import Constify.Proofs.Text.Split

/-!
# Reading a clause

* `Unmarked t` : no quote and no brace stands in the text;
* `Clause.parts_append_cons`, `Clause.parts_of_trimmed`, `Clause.parts_of_blanks`, `Clause.parts_list` : the
  parts between commas;
* `Clause.Spec`, `Clause.Entry` : the texts of entries that bind a name;
* `Clause.Entry.namedBinding?` : the name that such an entry binds;
* `Clause.braced?_append` : the text between the braces.
-/

namespace Constify

open Text (splitOn trim trimStart)

/-! ## Quotes and braces -/

/-- No quote and no brace stands in the text. -/
def Unmarked (t : Text) : Prop := ∀ c ∈ t, isQuote c = false ∧ c ≠ '{' ∧ c ≠ '}'

instance : DecidablePred Unmarked := fun t =>
  inferInstanceAs (Decidable (∀ c ∈ t, isQuote c = false ∧ c ≠ '{' ∧ c ≠ '}'))

theorem unmarked_nil : Unmarked [] := by simp [Unmarked]

theorem unmarked_append {a b : Text} : Unmarked (a ++ b) ↔ Unmarked a ∧ Unmarked b :=
  List.forall_mem_append

theorem Unmarked.not_open {t : Text} (h : Unmarked t) : '{' ∉ t := fun hmem => (h _ hmem).2.1 rfl

theorem Unmarked.not_close {t : Text} (h : Unmarked t) : '}' ∉ t := fun hmem => (h _ hmem).2.2 rfl

/-- Identifiers and blanks hold no quote and no brace. -/
theorem unmarked_of_forall {t : Text} (h : ∀ c ∈ t, isIdentChar c = true ∨ isBlank c = true) :
    Unmarked t := by
  intro c hc
  refine ⟨(h c hc).elim isQuote_of_isIdentChar isQuote_of_isBlank, ?_, ?_⟩
  · rintro rfl
    exact absurd (h _ hc) (by decide)
  · rintro rfl
    exact absurd (h _ hc) (by decide)

theorem unmarked_of_isIdentifier {t : Text} (h : isIdentifier t = true) : Unmarked t :=
  unmarked_of_forall fun _ hc => Or.inl (isIdentChar_of_mem h hc)

theorem Blanks.unmarked {t : Text} (h : Blanks t) : Unmarked t :=
  unmarked_of_forall fun c hc => Or.inr (h c hc)

namespace Clause

/-! ## Parts between commas -/

theorem parts_append_cons (a b : Text) : parts (a ++ ',' :: b) = parts a ++ parts b := by
  simp only [parts, Text.splitOn_append_cons, List.map_append, List.filter_append]

theorem parts_of_not_mem {t : Text} (h : ',' ∉ t) : parts t = [trim t].filter fun p => p != [] := by
  rw [parts, Text.splitOn_of_not_mem h, List.map_singleton]

theorem parts_of_trimmed {a t b : Text} (ha : Blanks a) (hb : Blanks b) (ht : Trimmed t) (hne : t ≠ [])
    (hcomma : ',' ∉ t) : parts (a ++ (t ++ b)) = [t] := by
  have hfree : ',' ∉ a ++ (t ++ b) := by
    simp only [List.mem_append, not_or]
    exact ⟨ha.not_mem (by decide), hcomma, hb.not_mem (by decide)⟩
  rw [parts_of_not_mem hfree, ← List.append_assoc, Text.trim_append ha hb ht,
    List.filter_cons_of_pos (by simpa using hne), List.filter_nil]

theorem parts_of_isIdentifier {name : Text} (h : isIdentifier name = true) : parts name = [name] := by
  have hne : name ≠ [] := fun hnil => absurd h (by rw [hnil]; decide)
  have hcomma : ',' ∉ name := fun hmem => absurd (isIdentChar_of_mem h hmem) (by decide)
  have hparts := parts_of_trimmed blanks_nil blanks_nil (trimmed_of_isIdentifier h) hne hcomma
  rwa [List.nil_append, List.append_nil] at hparts

theorem parts_of_blanks {t : Text} (h : Blanks t) : parts t = [] := by
  have hnil : Trimmed [] := ⟨by simp, by simp⟩
  have htrim := Text.trim_append h blanks_nil hnil
  rw [List.append_nil, List.append_nil] at htrim
  rw [parts_of_not_mem (h.not_mem (by decide)), htrim]
  rfl

theorem mem_parts_append_left {before t p : Text} (hbefore : ∀ c ∈ before.getLast?, c = ',')
    (hp : p ∈ parts t) : p ∈ parts (before ++ t) := by
  rcases List.eq_nil_or_concat' before with rfl | ⟨front, c, rfl⟩
  · exact hp
  · obtain rfl : c = ',' := hbefore c (by simp)
    rw [List.append_assoc, List.singleton_append, parts_append_cons]
    exact List.mem_append_right _ hp

theorem mem_parts_append_right {t after p : Text} (hafter : ∀ c ∈ after.head?, c = ',')
    (hp : p ∈ parts t) : p ∈ parts (t ++ after) := by
  cases after with
  | nil => rwa [List.append_nil]
  | cons c after =>
    obtain rfl : c = ',' := hafter c rfl
    rw [parts_append_cons]
    exact List.mem_append_left _ hp

theorem parts_cons_of_isBlank {c : Char} (h : isBlank c = true) (t : Text) : parts (c :: t) = parts t := by
  have hcomma : c ≠ ',' := by
    rintro rfl
    cases h
  obtain ⟨p, ps, hps⟩ := List.exists_cons_of_ne_nil (Text.splitOn_ne_nil ',' t)
  have htrim : trim (c :: p) = trim p := by
    rw [trim, trimStart, List.dropWhile_cons_of_pos h, trim, trimStart]
  rw [parts, splitOn, if_neg hcomma, hps, Text.consHead, List.map_cons, htrim, ← List.map_cons, ← hps, parts]

/-- The parts of a list are its entries, whatever blanks are around them, with or without a comma at the
end. -/
theorem parts_list {gap close : Text} {entries : List Text} (hgap : Blanks gap)
    (hclose : Blanks close ∨ ∃ tail, close = ',' :: tail ∧ Blanks tail)
    (hentries : ∀ t ∈ entries, Trimmed t ∧ t ≠ [] ∧ ',' ∉ t) {lead : Text} (hlead : Blanks lead) :
    parts (lead ++ ((',' :: gap).intercalate entries ++ close)) = entries := by
  induction entries generalizing lead with
  | nil =>
    rcases hclose with hclose | ⟨tail, rfl, htail⟩
    · refine parts_of_blanks fun c hc => ?_
      exact (List.mem_append.mp hc).elim (hlead c) (hclose c)
    · show parts (lead ++ ',' :: tail) = []
      rw [parts_append_cons, parts_of_blanks hlead, parts_of_blanks htail, List.nil_append]
  | cons t ts ih =>
    obtain ⟨ht, hne, hcomma⟩ := hentries t (by simp)
    have htsEntries := fun t' ht' => hentries t' (List.mem_cons_of_mem t ht')
    cases ts with
    | nil =>
      rw [List.intercalate_singleton]
      rcases hclose with hclose | ⟨tail, rfl, htail⟩
      · exact parts_of_trimmed hlead hclose ht hne hcomma
      · have := parts_of_trimmed hlead blanks_nil ht hne hcomma
        rw [List.append_nil] at this
        rw [← List.append_assoc, parts_append_cons, this, parts_of_blanks htail, List.append_nil]
    | cons t' ts =>
      have hhead := parts_of_trimmed hlead blanks_nil ht hne hcomma
      rw [List.append_nil] at hhead
      have hsplit : lead ++ ((',' :: gap).intercalate (t :: t' :: ts) ++ close) =
          (lead ++ t) ++ ',' :: (gap ++ ((',' :: gap).intercalate (t' :: ts) ++ close)) := by
        rw [List.intercalate_cons_cons]
        simp
      rw [hsplit, parts_append_cons, hhead, ih htsEntries hgap, List.singleton_append]

/-! ## The name that a part binds -/

theorem outerBinding?_of_isIdentifier {name : Text} (h : isIdentifier name = true) :
    outerBinding? name = some name := by
  obtain ⟨c, cs, rfl, hc, -⟩ := exists_cons_of_isIdentifier h
  unfold outerBinding?
  split
  · next heq =>
    obtain ⟨rfl, -⟩ := List.cons.inj heq
    cases hc
  · rw [if_pos h]

theorem outerBinding?_all {name : Text} (h : isIdentifier name = true) :
    outerBinding? ("* as ".toList ++ name) = some name := by
  have hlast : Trimmed ("as ".toList ++ name) := by
    obtain ⟨c, cs, hname, -, -⟩ := exists_cons_of_isIdentifier h
    refine ⟨by simp [isBlank], ?_⟩
    rw [hname, List.getLast?_append_cons, ← hname]
    exact (trimmed_of_isIdentifier h).last
  have htrim := Text.trim_append (a := [' ']) (by decide) blanks_nil hlast
  have hafter : Text.after? "as".toList ("as ".toList ++ name) = some (' ' :: name) :=
    Text.after?_eq_some_iff.mpr rfl
  have hname := Text.trim_append (a := [' ']) (by decide) blanks_nil (trimmed_of_isIdentifier h)
  rw [List.append_nil] at htrim hname
  show (Text.after? "as".toList (trim ([' '] ++ ("as ".toList ++ name)))).map trim = some name
  rw [htrim, hafter]
  exact congrArg some hname

/-- The name that an entry binds, once the word `type` is taken away. -/
def specBinding? (spec : Text) : Option Text :=
  let name := ((afterFirst? " as ".toList spec).map trim).getD spec
  if isIdentifier name then some name else none

theorem namedBinding?_eq (part : Text) :
    namedBinding? part = specBinding? (((Text.after? "type ".toList part).getD part).trim) := rfl

theorem afterFirst?_cons {p : Text} {c : Char} {cs : Text} (h : ¬ p <+: c :: cs) :
    afterFirst? p (c :: cs) = afterFirst? p cs := by
  rw [afterFirst?]
  cases hafter : Text.after? p (c :: cs) with
  | none => rfl
  | some r => exact absurd ⟨r, (Text.after?_eq_some_iff.mp hafter).symm⟩ h

theorem afterFirst?_as_of_not_mem {f : Text} (h : ' ' ∉ f) (t : Text) :
    afterFirst? " as ".toList (f ++ t) = afterFirst? " as ".toList t := by
  induction f with
  | nil => rfl
  | cons c f ih =>
    rw [List.mem_cons, not_or] at h
    refine (afterFirst?_cons ?_).trans (ih h.2)
    rintro ⟨r, hr⟩
    exact h.1 (List.cons.inj hr).1

/-- The first `as` between spaces is the one that only blanks stand in front of. -/
theorem afterFirst?_as_of_blanks {f : Text} (h : Blanks f) (r : Text) :
    afterFirst? " as ".toList (f ++ (" as ".toList ++ r)) = some r := by
  induction f with
  | nil =>
    have hafter : Text.after? " as ".toList (" as ".toList ++ r) = some r :=
      Text.after?_eq_some_iff.mpr rfl
    show (Text.after? " as ".toList (" as ".toList ++ r)).or _ = some r
    rw [hafter]
    rfl
  | cons c f ih =>
    rw [blanks_cons] at h
    refine (afterFirst?_cons ?_).trans (ih h.2)
    rintro ⟨s, hs⟩
    have hnext : 'a' :: ("s ".toList ++ s) = f ++ (" as ".toList ++ r) := (List.cons.inj hs).2
    cases f with
    | nil => cases (List.cons.inj hnext).1
    | cons d f =>
      have hd := (blanks_cons.mp h.2).1
      rw [← (List.cons.inj hnext).1] at hd
      cases hd

theorem specBinding?_of_isIdentifier {name : Text} (h : isIdentifier name = true) :
    specBinding? name = some name := by
  have hspace : ' ' ∉ name := fun hmem => absurd (isIdentChar_of_mem h hmem) (by decide)
  have hnone := afterFirst?_as_of_not_mem hspace []
  rw [List.append_nil] at hnone
  rw [specBinding?, hnone]
  exact if_pos h

theorem specBinding?_alias {exported name gap gap' : Text} (hexported : isIdentifier exported = true)
    (hgap : Blanks gap) (hgap' : Blanks gap') (h : isIdentifier name = true) :
    specBinding? (exported ++ (gap ++ (" as ".toList ++ (gap' ++ name)))) = some name := by
  have hspace : ' ' ∉ exported := fun hmem => absurd (isIdentChar_of_mem hexported hmem) (by decide)
  have htrim := Text.trim_append hgap' blanks_nil (trimmed_of_isIdentifier h)
  rw [List.append_nil] at htrim
  rw [specBinding?, afterFirst?_as_of_not_mem hspace, afterFirst?_as_of_blanks hgap, Option.map_some, htrim]
  exact if_pos h

/-- A trimmed entry without the word `type` in front. -/
theorem namedBinding?_of_spec {spec : Text} (hspec : Trimmed spec) (h : ¬ "type ".toList <+: spec) :
    namedBinding? spec = specBinding? spec := by
  have hnone : Text.after? "type ".toList spec = none := by
    cases hafter : Text.after? "type ".toList spec with
    | none => rfl
    | some r => exact absurd ⟨r, (Text.after?_eq_some_iff.mp hafter).symm⟩ h
  rw [namedBinding?_eq, hnone, Option.getD_none, Text.trim_of_trimmed hspec]

/-- A trimmed entry behind the word `type`. -/
theorem namedBinding?_of_type {gap spec : Text} (hgap : Blanks gap) (hspec : Trimmed spec) :
    namedBinding? ("type ".toList ++ (gap ++ spec)) = specBinding? spec := by
  have hsome : Text.after? "type ".toList ("type ".toList ++ (gap ++ spec)) = some (gap ++ spec) :=
    Text.after?_eq_some_iff.mpr rfl
  have htrim := Text.trim_append hgap blanks_nil hspec
  rw [List.append_nil] at htrim
  rw [namedBinding?_eq, hsome, Option.getD_some, htrim]

/-! ## Entries of a list -/

/-- The text of an entry that binds `name`, without the word `type`. -/
inductive Spec (name : Text) : Text → Prop
  | plain : Spec name name
  | renamed {exported gap gap' : Text} (hexported : isIdentifier exported = true) (hgap : Blanks gap)
      (hgap' : Blanks gap') : Spec name (exported ++ (gap ++ (" as ".toList ++ (gap' ++ name))))

/-- The text of an entry that binds `name`, perhaps behind the word `type` and a space. -/
inductive Entry (name : Text) : Text → Prop
  | plain {spec : Text} (hspec : Spec name spec) (htype : ¬ "type ".toList <+: spec) : Entry name spec
  | typed {gap spec : Text} (hgap : Blanks gap) (hspec : Spec name spec) :
      Entry name ("type ".toList ++ (gap ++ spec))

section

variable {name t : Text} (hname : isIdentifier name = true)

include hname

theorem Spec.exists_cons (h : Spec name t) : ∃ c cs, t = c :: cs ∧ isIdentStart c = true := by
  cases h with
  | plain =>
    obtain ⟨c, cs, rfl, hc, -⟩ := exists_cons_of_isIdentifier hname
    exact ⟨c, cs, rfl, hc⟩
  | renamed hexported hgap hgap' =>
    obtain ⟨c, cs, rfl, hc, -⟩ := exists_cons_of_isIdentifier hexported
    exact ⟨c, _, rfl, hc⟩

theorem Spec.trimmed (h : Spec name t) : Trimmed t where
  head := by
    obtain ⟨c, cs, rfl, hc⟩ := h.exists_cons hname
    simpa using isBlank_of_isIdentChar (isIdentChar_of_isIdentStart hc)
  last := by
    obtain ⟨c, cs, hcons, -, -⟩ := exists_cons_of_isIdentifier hname
    have hlast := (trimmed_of_isIdentifier hname).last
    cases h with
    | plain => exact hlast
    | renamed hexported hgap hgap' =>
      rw [hcons] at hlast ⊢
      simpa only [← List.append_assoc, List.getLast?_append_cons] using hlast

theorem Spec.isIdentChar_or_isBlank (h : Spec name t) {c : Char} (hc : c ∈ t) :
    isIdentChar c = true ∨ isBlank c = true := by
  cases h with
  | plain => exact Or.inl (isIdentChar_of_mem hname hc)
  | renamed hexported hgap hgap' =>
    have has : ∀ x ∈ " as ".toList, isIdentChar x = true ∨ isBlank x = true := by decide
    simp only [List.mem_append] at hc
    rcases hc with hc | hc | hc | hc | hc
    · exact Or.inl (isIdentChar_of_mem hexported hc)
    · exact Or.inr (hgap c hc)
    · exact has c hc
    · exact Or.inr (hgap' c hc)
    · exact Or.inl (isIdentChar_of_mem hname hc)

theorem Spec.specBinding? (h : Spec name t) : specBinding? t = some name := by
  cases h with
  | plain => exact specBinding?_of_isIdentifier hname
  | renamed hexported hgap hgap' => exact specBinding?_alias hexported hgap hgap' hname

theorem Entry.trimmed (h : Entry name t) : Trimmed t := by
  cases h with
  | plain hspec htype => exact hspec.trimmed hname
  | @typed gap spec hgap hspec =>
    obtain ⟨c, cs, hcons, -⟩ := hspec.exists_cons hname
    have hlast := (hspec.trimmed hname).last
    rw [hcons] at hlast ⊢
    refine ⟨by simp [isBlank], ?_⟩
    rwa [← List.append_assoc, List.getLast?_append_cons]

theorem Entry.ne_nil (h : Entry name t) : t ≠ [] := by
  cases h with
  | plain hspec htype =>
    obtain ⟨c, cs, rfl, -⟩ := hspec.exists_cons hname
    exact List.cons_ne_nil c cs
  | typed hgap hspec => simp

/-- An entry is made of identifiers and blanks. -/
theorem Entry.isIdentChar_or_isBlank (h : Entry name t) {c : Char} (hc : c ∈ t) :
    isIdentChar c = true ∨ isBlank c = true := by
  cases h with
  | plain hspec htype => exact hspec.isIdentChar_or_isBlank hname hc
  | typed hgap hspec =>
    have htype : ∀ x ∈ "type ".toList, isIdentChar x = true ∨ isBlank x = true := by decide
    simp only [List.mem_append] at hc
    rcases hc with hc | hc | hc
    · exact htype c hc
    · exact Or.inr (hgap c hc)
    · exact hspec.isIdentChar_or_isBlank hname hc

theorem Entry.namedBinding? (h : Entry name t) : namedBinding? t = some name := by
  cases h with
  | plain hspec htype => rw [namedBinding?_of_spec (hspec.trimmed hname) htype, hspec.specBinding? hname]
  | typed hgap hspec => rw [namedBinding?_of_type hgap (hspec.trimmed hname), hspec.specBinding? hname]

end

/-- No blank follows `type` at the front of a text that starts with another identifier. -/
theorem isBlank_head_of_type {name t r : Text} (h : isIdentifier name = true) (hne : name ≠ "type".toList)
    (ht : ∀ c ∈ t.head?, isIdentChar c = false) (heq : name ++ t = "type".toList ++ r) :
    ∀ c ∈ r.head?, isBlank c = false := by
  intro c hc
  cases hblank : isBlank c with
  | false => rfl
  | true =>
    have hr : ∀ d ∈ r.head?, isIdentChar d = false := by
      intro d hd
      obtain rfl : d = c := Option.mem_unique hd hc
      exact isIdentChar_of_isBlank hblank
    exact absurd (eq_of_append_eq_append h (by decide) ht hr heq) hne

theorem not_type_prefix {name t : Text} (h : isIdentifier name = true) (hne : name ≠ "type".toList)
    (ht : ∀ c ∈ t.head?, isIdentChar c = false) : ¬ "type ".toList <+: name ++ t := by
  rintro ⟨r, hr⟩
  have hblank := isBlank_head_of_type (r := ' ' :: r) h hne ht hr.symm ' ' rfl
  cases hblank

/-! ## Between the braces -/

theorem braced?_append {a inside c : Text} (ha : '{' ∉ a) (hc : '}' ∉ c) :
    braced? (a ++ '{' :: (inside ++ '}' :: c)) = some (a, inside, c) := by
  have hopen : ∀ d ∈ a, (d != '{') = true := fun d hd => bne_iff_ne.mpr fun h => ha (h ▸ hd)
  have hclose : ∀ d ∈ c.reverse, (d != '}') = true := fun d hd =>
    bne_iff_ne.mpr fun h => hc (h ▸ List.mem_reverse.mp hd)
  have hreverse : (inside ++ '}' :: c).reverse = c.reverse ++ '}' :: inside.reverse := by simp
  unfold braced?
  rw [List.dropWhile_append_of_pos hopen, List.takeWhile_append_of_pos hopen,
    List.dropWhile_cons_of_neg (by simp), List.takeWhile_cons_of_neg (by simp)]
  dsimp only
  rw [hreverse, List.dropWhile_append_of_pos hclose, List.takeWhile_append_of_pos hclose,
    List.dropWhile_cons_of_neg (by simp), List.takeWhile_cons_of_neg (by simp)]
  simp

theorem braced?_eq_none {t : Text} (h : '{' ∉ t) : braced? t = none := by
  have hdrop : t.dropWhile (fun c => c != '{') = [] :=
    List.dropWhile_eq_nil_iff.mpr fun c hc => bne_iff_ne.mpr fun heq => h (heq ▸ hc)
  unfold braced?
  rw [hdrop]

end Clause

end Constify
