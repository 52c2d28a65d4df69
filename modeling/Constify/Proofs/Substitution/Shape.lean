import Constify.Proofs.Text.Occurrence
import Constify.Substitution

/-!
# The shape of substitutions

* `Context.front`, `Context.back` : the two sides of a context (`Context.wrap_eq`);
* `RefersTo name r` : `r` starts with `name.` and is made of reference characters;
* `Table.Unmixed` : no literal of the table holds the front of a reference;
* `Table.exists_shape` : every substitution looks for a quoted text in a context and puts a text
  that refers to the constant object in the same context;
* `Table.exists_pattern_eq`, `Table.not_mem_replacement` : the characters of patterns and replacements;
* `Context.front_append_ne`, `Context.reference_append_ne` : no occurrence starts in a replacement;
* `Context.apart_wrap` : what is looked for never overlaps with what is put in.
-/

namespace Constify

open Text (Apart infix_append_cons_iff infix_cons_of_not_mem)

/-! ## The two sides of a context -/

namespace Context

def front : Context → Text
  | equality => ['=', '=', '=', ' ']
  | inequality => ['!', '=', '=', ' ']
  | membershipList => ['[']
  | callArgument => ['(']

def back : Context → Text
  | equality | inequality => []
  | membershipList => [']']
  | callArgument => [')']

theorem wrap_eq (c : Context) (t : Text) : c.wrap t = c.front ++ t ++ c.back := by
  cases c with
  | equality | inequality => exact (List.append_nil _).symm
  | membershipList | callArgument => rfl

theorem wrap_quoted (c : Context) (m : Text) :
    c.wrap (quoted m) = c.front ++ '"' :: (m ++ '"' :: c.back) := by
  simp [wrap_eq, quoted]

theorem wrap_ne_nil (c : Context) (t : Text) : c.wrap t ≠ [] := by
  have : c.front ≠ [] := by cases c <;> decide
  simp [wrap_eq, this]

end Context

/-! ## References -/

/-- The characters of references and of what separates them in a list. -/
def isReferenceChar (c : Char) : Bool := isIdentChar c || c == '.' || c == ',' || c == ' '

/-- The front of every reference to a key of the object. -/
def referenceFront (name : Text) : Text := name ++ ['.']

/-- The text starts with a reference to a key of the object and holds nothing but references. -/
structure RefersTo (name r : Text) : Prop where
  front : referenceFront name <+: r
  chars : ∀ c ∈ r, isReferenceChar c = true

theorem not_mem_referenceFront {name : Text} (hname : isIdentifier name = true) {c : Char}
    (hc : isIdentChar c = false) (hdot : c ≠ '.') : c ∉ referenceFront name := by
  intro h
  rw [referenceFront, List.mem_append, List.mem_singleton] at h
  rcases h with h | h
  · rw [isIdentChar_of_mem hname h] at hc
    simp at hc
  · exact hdot h

theorem RefersTo.head {name r : Text} (hname : isIdentifier name = true) (h : RefersTo name r) :
    ∃ c cs, r = c :: cs ∧ isIdentStart c = true := by
  obtain ⟨u, rfl⟩ := h.front
  cases name with
  | nil => simp [isIdentifier] at hname
  | cons c cs =>
    simp only [isIdentifier, Bool.and_eq_true] at hname
    exact ⟨c, cs ++ ['.'] ++ u, by simp [referenceFront], hname.1⟩

namespace Table

/-- No literal of the table holds the front of a reference. -/
def Unmixed (t : Table) : Prop :=
  ∀ e ∈ t.entries, Text.occursIn (referenceFront t.identifier) e.literal = false

instance (t : Table) : Decidable t.Unmixed := by
  unfold Unmixed
  infer_instance

theorem not_infix_literal {t : Table} (ht : t.Unmixed) {e : Entry} (he : e ∈ t.entries) :
    ¬ referenceFront t.identifier <:+: e.literal := by
  rw [← Text.occursIn_iff, ht e he]
  simp

theorem reference_refersTo (t : Table) {e : Entry} (he : e ∈ t.entries) :
    RefersTo t.identifier (t.reference e) where
  front := ⟨e.key, by simp [referenceFront, reference]⟩
  chars := by
    intro c hc
    rw [reference, List.mem_append, List.mem_cons] at hc
    rcases hc with hc | rfl | hc
    · simp [isReferenceChar, isIdentChar_of_mem t.identifier_valid hc]
    · rfl
    · simp [isReferenceChar, isIdentChar_of_mem (t.key_valid he) hc]

end Table

theorem RefersTo.intercalate {name : Text} {rs : List Text} (hne : rs ≠ [])
    (h : ∀ r ∈ rs, RefersTo name r) : RefersTo name (", ".toList.intercalate rs) := by
  induction rs with
  | nil => exact absurd rfl hne
  | cons r rs ih =>
    have hr := h r (by simp)
    cases rs with
    | nil => simpa using hr
    | cons r' rs =>
      have hrs := ih (by simp) fun s hs => h s (List.mem_cons_of_mem _ hs)
      rw [List.intercalate_cons_cons]
      refine ⟨?_, fun c hc => ?_⟩
      · rw [List.append_assoc]
        exact hr.front.trans (List.prefix_append _ _)
      · rw [List.mem_append, List.mem_append] at hc
        rcases hc with (hc | hc) | hc
        · exact hr.chars c hc
        · change c ∈ [',', ' '] at hc
          simp only [List.mem_cons, List.not_mem_nil, or_false] at hc
          rcases hc with rfl | rfl <;> rfl
        · exact hrs.chars c hc

/-! ## Quoted texts -/

/-- What stands between the literals of a list of quoted literals. -/
def quoteSeparator : Text := "\", \"".toList

theorem eq_of_mem_quoteSeparator {c : Char} (hc : c ∈ quoteSeparator) :
    c = '"' ∨ c = ',' ∨ c = ' ' := by
  change c ∈ ['"', ',', ' ', '"'] at hc
  simp only [List.mem_cons, List.not_mem_nil, or_false] at hc
  rcases hc with rfl | rfl | rfl | rfl <;> simp

theorem intercalate_quoted {ls : List Text} (hne : ls ≠ []) :
    ", ".toList.intercalate (ls.map quoted) = quoted (quoteSeparator.intercalate ls) := by
  induction ls with
  | nil => exact absurd rfl hne
  | cons l ls ih =>
    cases ls with
    | nil => simp
    | cons l' ls =>
      have := ih (by simp)
      rw [List.map_cons] at this
      rw [List.map_cons, List.map_cons, List.intercalate_cons_cons, this,
        List.intercalate_cons_cons]
      simp [quoted, quoteSeparator]

theorem not_infix_intercalate_quoteSeparator {w : Text} (hw : ∀ c ∈ quoteSeparator, c ∉ w)
    {ls : List Text} (hne : ls ≠ []) (hls : ∀ l ∈ ls, ¬ w <:+: l) :
    ¬ w <:+: quoteSeparator.intercalate ls := by
  induction ls with
  | nil => exact absurd rfl hne
  | cons l ls ih =>
    cases ls with
    | nil => simpa using hls l (by simp)
    | cons l' ls =>
      have hrest := ih (by simp) fun k hk => hls k (List.mem_cons_of_mem _ hk)
      rw [List.intercalate_cons_cons, List.append_assoc]
      show ¬ w <:+: l ++ '"' :: ',' :: ' ' :: '"' :: quoteSeparator.intercalate (l' :: ls)
      rw [infix_append_cons_iff (hw '"' (by decide)), infix_cons_of_not_mem (hw ',' (by decide)),
        infix_cons_of_not_mem (hw ' ' (by decide)), infix_cons_of_not_mem (hw '"' (by decide))]
      exact not_or.mpr ⟨hls l (by simp), hrest⟩

/-! ## The substitutions of a table -/

namespace Table

theorem not_mem_literal (t : Table) {e : Entry} (he : e ∈ t.entries) {c : Char}
    (hc : (c != '"' && c != '\\' && c != '\r' && c != '\n') = false) : c ∉ e.literal := by
  intro h
  have hvalid := t.literal_valid he
  rw [isQuotable, Bool.and_eq_true, List.all_eq_true] at hvalid
  rw [hvalid.2 c h] at hc
  cases hc

theorem mem_substitutions_iff {t : Table} {s : Substitution} :
    s ∈ t.substitutions ↔ s = t.listSubstitution ∨
      ∃ c, c ≠ .membershipList ∧ ∃ e ∈ t.entries, s = t.entrySubstitution c e := by
  simp only [substitutions, List.mem_append, List.mem_map, List.mem_cons]
  constructor
  · rintro ((⟨e, he, rfl⟩ | ⟨e, he, rfl⟩) | rfl | ⟨e, he, rfl⟩)
    · exact Or.inr ⟨_, by decide, e, he, rfl⟩
    · exact Or.inr ⟨_, by decide, e, he, rfl⟩
    · exact Or.inl rfl
    · exact Or.inr ⟨_, by decide, e, he, rfl⟩
  · rintro (rfl | ⟨c, hc, e, he, rfl⟩)
    · exact Or.inr (Or.inl rfl)
    · cases c with
      | equality => exact Or.inl (Or.inl ⟨e, he, rfl⟩)
      | inequality => exact Or.inl (Or.inr ⟨e, he, rfl⟩)
      | membershipList => exact absurd rfl hc
      | callArgument => exact Or.inr (Or.inr ⟨e, he, rfl⟩)

/-- Every substitution looks for a quoted text in a context and puts a text that refers to the
constant object in the same context. What stands in the quoted text and holds none of the characters
between literals stands in a literal. -/
theorem exists_shape (t : Table) {s : Substitution} (hs : s ∈ t.substitutions) :
    ∃ m r, s.pattern = s.context.wrap (quoted m) ∧ s.replacement = s.context.wrap r ∧
      RefersTo t.identifier r ∧
      ∀ w, (∀ c ∈ quoteSeparator, c ∉ w) → (∀ e ∈ t.entries, ¬ w <:+: e.literal) → ¬ w <:+: m := by
  rcases mem_substitutions_iff.mp hs with rfl | ⟨c, -, e, he, rfl⟩
  · refine ⟨quoteSeparator.intercalate (t.entries.map Entry.literal),
      ", ".toList.intercalate (t.entries.map t.reference), ?_, rfl, ?_, fun w hw hlit => ?_⟩
    · rw [← intercalate_quoted (by simpa using t.entries_ne_nil), List.map_map]
      rfl
    · refine RefersTo.intercalate (by simpa using t.entries_ne_nil) fun r hr => ?_
      obtain ⟨e, he, rfl⟩ := List.mem_map.mp hr
      exact t.reference_refersTo he
    · refine not_infix_intercalate_quoteSeparator hw (by simpa using t.entries_ne_nil) fun l hl => ?_
      obtain ⟨e, he, rfl⟩ := List.mem_map.mp hl
      exact hlit e he
  · exact ⟨e.literal, t.reference e, rfl, rfl, t.reference_refersTo he, fun w _ hlit => hlit e he⟩

variable {t : Table} {s : Substitution}

theorem exists_pattern_eq (hs : s ∈ t.substitutions) :
    ∃ r, s.pattern = s.context.front ++ '"' :: r ∧ '"' ∈ r := by
  obtain ⟨m, -, hp, -⟩ := t.exists_shape hs
  exact ⟨m ++ '"' :: s.context.back, by rw [hp, Context.wrap_quoted], by simp⟩

theorem pattern_ne_nil (hs : s ∈ t.substitutions) : s.pattern ≠ [] := by
  obtain ⟨r, hp, -⟩ := exists_pattern_eq hs
  simp [hp]

theorem quote_mem_pattern (hs : s ∈ t.substitutions) : '"' ∈ s.pattern := by
  obtain ⟨r, hp, -⟩ := exists_pattern_eq hs
  simp [hp]

/-- A character that opens and closes no context and stands neither in a literal nor between literals
stands in no pattern. -/
theorem not_mem_pattern (hs : s ∈ t.substitutions) {c : Char} (hsep : c ∉ quoteSeparator)
    (hcontext : ∀ d : Context, c ∉ d.front ∧ c ∉ d.back) (hlit : ∀ e ∈ t.entries, c ∉ e.literal) :
    c ∉ s.pattern := by
  obtain ⟨m, -, hp, -, -, hm⟩ := t.exists_shape hs
  have hquote : c ≠ '"' := fun h => hsep (h ▸ by decide)
  have hcm : c ∉ m := by
    rw [← List.singleton_infix_iff]
    refine hm [c] (fun d hd hmem => ?_) fun e he => ?_
    · obtain rfl := List.mem_singleton.mp hmem
      exact hsep hd
    · rw [List.singleton_infix_iff]
      exact hlit e he
  rw [hp, Context.wrap_quoted]
  simp only [List.mem_append, List.mem_cons, not_or]
  exact ⟨(hcontext _).1, hquote, hcm, hquote, (hcontext _).2⟩

theorem newline_not_mem_pattern (hs : s ∈ t.substitutions) : '\n' ∉ s.pattern :=
  not_mem_pattern hs (by decide) (fun d => by cases d <;> decide)
    fun _ he => t.not_mem_literal he (by decide)

theorem return_not_mem_pattern (hs : s ∈ t.substitutions) : '\r' ∉ s.pattern :=
  not_mem_pattern hs (by decide) (fun d => by cases d <;> decide)
    fun _ he => t.not_mem_literal he (by decide)

theorem replacement_ne_nil (hs : s ∈ t.substitutions) : s.replacement ≠ [] := by
  obtain ⟨-, r, -, hr, -⟩ := t.exists_shape hs
  rw [hr]
  exact s.context.wrap_ne_nil r

theorem not_mem_replacement (hs : s ∈ t.substitutions) {c : Char} (hc : isReferenceChar c = false)
    (hcontext : ∀ d : Context, c ∉ d.front ∧ c ∉ d.back) : c ∉ s.replacement := by
  obtain ⟨-, r, -, hr, href, -⟩ := t.exists_shape hs
  rw [hr, Context.wrap_eq, List.mem_append, List.mem_append]
  rintro ((h | h) | h)
  · exact (hcontext _).1 h
  · rw [href.chars c h] at hc
    cases hc
  · exact (hcontext _).2 h

theorem quote_not_mem_replacement (hs : s ∈ t.substitutions) : '"' ∉ s.replacement :=
  not_mem_replacement hs (by decide) fun d => by cases d <;> decide

theorem newline_not_mem_replacement (hs : s ∈ t.substitutions) : '\n' ∉ s.replacement :=
  not_mem_replacement hs (by decide) fun d => by cases d <;> decide

theorem return_not_mem_replacement (hs : s ∈ t.substitutions) : '\r' ∉ s.replacement :=
  not_mem_replacement hs (by decide) fun d => by cases d <;> decide

end Table

/-! ## What is looked for and what is put in -/

namespace Context

theorem not_infix_wrap_quoted (c : Context) {name m : Text} (hname : isIdentifier name = true)
    (hm : ¬ referenceFront name <:+: m) : ¬ referenceFront name <:+: c.wrap (quoted m) := by
  have hquote : '"' ∉ referenceFront name := not_mem_referenceFront hname (by decide) (by decide)
  have hdot : ∀ t : Text, '.' ∉ t → ¬ referenceFront name <:+: t := by
    intro t ht h
    exact ht (h.subset (by simp [referenceFront]))
  rw [wrap_quoted, infix_append_cons_iff hquote, infix_append_cons_iff hquote]
  rintro (h | h | h)
  · exact hdot _ (by cases c <;> decide) h
  · exact hm h
  · exact hdot _ (by cases c <;> decide) h

/-- The last character of what is looked for stands in no replacement but at its end. -/
theorem not_mem_dropLast_wrap (c d : Context) {name m r : Text} (hr : RefersTo name r) :
    ∀ x ∈ (c.wrap (quoted m)).getLast?, x ∉ (d.wrap r).dropLast := by
  intro x hx hmem
  have hmem : x ∈ d.front ++ r := by
    rw [wrap_eq] at hmem
    cases d with
    | equality | inequality =>
      rw [back, List.append_nil] at hmem
      exact List.mem_of_mem_dropLast hmem
    | membershipList | callArgument => simpa [back] using hmem
  have hlast : x = '"' ∨ x = ']' ∨ x = ')' := by
    rw [wrap_quoted] at hx
    cases c <;> simp [back, List.getLast?_append, List.getLast?_cons] at hx <;> simp [← hx]
  have hfront : x ∉ d.front := by
    rcases hlast with rfl | rfl | rfl <;> cases d <;> decide
  have hchar : isReferenceChar x = false := by
    rcases hlast with rfl | rfl | rfl <;> decide
  rcases List.mem_append.mp hmem with h | h
  · exact hfront h
  · rw [hr.chars x h] at hchar
    simp at hchar

/-- No occurrence starts in the front of a replacement: a letter would stand where what is looked for
has its own front or its quote. -/
theorem front_append_ne (c d : Context) {u v w x y : Text} {i : Char} (hu : d.front = w ++ u)
    (hi : isIdentStart i = true) : u ++ i :: v ++ x ≠ c.front ++ '"' :: y := by
  intro h
  have hfront : ∀ k ∈ c.front, isIdentStart k = false := by
    cases c <;> simp only [front, List.forall_mem_cons, List.not_mem_nil, false_implies,
      implies_true, and_true] <;> decide
  have hquote : '"' ∉ d.front := by cases d <;> decide
  have hne : i ≠ '"' := by
    rintro rfl
    exact absurd hi (by decide)
  rw [List.append_assoc, List.cons_append] at h
  rcases List.append_eq_append_iff.mp h with ⟨k, hk, hx⟩ | ⟨k, rfl, hx⟩
  · cases k with
    | nil => exact hne (List.cons_eq_cons.mp hx).1
    | cons e k =>
      obtain ⟨rfl, -⟩ := List.cons_eq_cons.mp hx
      rw [hfront _ (by rw [hk]; simp)] at hi
      cases hi
  · cases k with
    | nil => exact hne (List.cons_eq_cons.mp hx).1.symm
    | cons e k =>
      obtain ⟨rfl, -⟩ := List.cons_eq_cons.mp hx
      exact hquote (by rw [hu]; simp)

/-- No occurrence starts behind the front of a replacement: what is looked for starts with a character
that stands in no reference. -/
theorem reference_append_ne (c d : Context) {name r s x y w : Text} (hr : RefersTo name r)
    (hs : s ≠ []) (hsuffix : r ++ d.back = w ++ s) : s ++ x ≠ c.front ++ y := by
  intro h
  cases s with
  | nil => exact hs rfl
  | cons k s =>
    have hk : k ∈ r ++ d.back := by rw [hsuffix]; simp
    have hhead : c.front.head? = some k := by
      have := congrArg List.head? h
      cases c <;> simpa [front] using this.symm
    obtain ⟨hchar, hback⟩ : isReferenceChar k = false ∧ k ∉ d.back := by
      cases c <;> obtain rfl := Option.some.inj hhead <;> cases d <;> decide
    rcases List.mem_append.mp hk with hk | hk
    · rw [hr.chars k hk] at hchar
      cases hchar
    · exact hback hk

/-- What is looked for cannot start inside a replacement. -/
theorem suffix_append_ne (c d : Context) {name m r s : Text} (hname : isIdentifier name = true)
    (hr : RefersTo name r) (hs : s ≠ []) (hsuffix : s <:+ d.wrap r) (b b' : Text) :
    s ++ b' ≠ c.wrap (quoted m) ++ b := by
  rw [wrap_quoted, List.append_assoc]
  rw [wrap_eq, List.append_assoc] at hsuffix
  obtain ⟨w, hw⟩ := hsuffix
  rcases List.append_eq_append_iff.mp hw with ⟨u, hu, rfl⟩ | ⟨u, rfl, hu⟩
  · obtain ⟨i, is, rfl, hi⟩ := hr.head hname
    exact front_append_ne c d hu hi
  · exact reference_append_ne c d hr hs hu

/-- What is looked for never overlaps with what is put in. -/
theorem apart_wrap (c d : Context) {name m r : Text} (hname : isIdentifier name = true)
    (hr : RefersTo name r) (hm : ¬ referenceFront name <:+: m) :
    Apart (c.wrap (quoted m)) (d.wrap r) := by
  refine Apart.intro (fun h => ?_) (not_mem_dropLast_wrap c d hr)
    fun s hs hsuffix b b' => suffix_append_ne c d hname hr hs hsuffix b b'
  refine not_infix_wrap_quoted c hname hm (hr.front.isInfix.trans (List.IsInfix.trans ?_ h))
  rw [wrap_eq]
  exact ⟨d.front, d.back, rfl⟩

end Context

end Constify
