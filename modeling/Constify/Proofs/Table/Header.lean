import Mathlib.Data.List.TakeWhile
import Constify.Proofs.Text.Blank
import Constify.Proofs.Text.Occurrence
import Constify.Table.ObjectLiteral

/-!
# The header of an object

* `ObjectLiteral.afterName?_eq` : what follows the name, in parts: a type annotation, then the equals sign
  and the brace;
* `ObjectLiteral.afterName?_eq_some_iff` : the texts that make up these parts;
* `ObjectLiteral.afterName?_of_ident` : a name with one more word behind it is no header;
* `ObjectLiteral.afterBlanks?_append_named` : the blanks in front of a name are all counted to it;
* `ObjectLiteral.atHeader?_eq_some_iff` : the headers that a text can start with.
-/

namespace Constify.ObjectLiteral

variable {name t r body : Text}

/-! ## What follows the name -/

/-- An optional type annotation passed over. -/
def skipType (t : Text) : Text :=
  match t with
  | ':' :: cs => cs.dropWhile fun c => c != '='
  | _ => t

/-- What follows the opening brace, in a text that starts with the equals sign. -/
def fromEquals? (t : Text) : Option Text :=
  match t with
  | '=' :: cs =>
    match Text.trimStart cs with
    | '{' :: body => some body
    | _ => none
  | _ => none

theorem afterName?_eq (t : Text) : afterName? t = fromEquals? (skipType t.trimStart) := rfl

/-- Nothing, or a type annotation: a colon and a text without an equals sign. -/
def TypeAnnotation (t : Text) : Prop := t = [] ∨ ∃ type, t = ':' :: type ∧ '=' ∉ type

theorem exists_eq_append_skipType (t : Text) : ∃ type, TypeAnnotation type ∧ t = type ++ skipType t := by
  unfold skipType
  split
  · next cs =>
    refine ⟨':' :: cs.takeWhile fun c => c != '=', Or.inr ⟨_, rfl, fun hmem => ?_⟩, ?_⟩
    · exact absurd (List.mem_takeWhile_imp hmem) (by decide)
    · rw [List.cons_append, List.takeWhile_append_dropWhile]
  · exact ⟨[], Or.inl rfl, rfl⟩

theorem skipType_append_cons {type : Text} (h : TypeAnnotation type) (t : Text) :
    skipType (type ++ '=' :: t) = '=' :: t := by
  rcases h with rfl | ⟨type, rfl, hplain⟩
  · rfl
  · have hpass : ∀ c ∈ type, (c != '=') = true := by
      intro c hc
      rw [bne_iff_ne]
      rintro rfl
      exact hplain hc
    rw [List.cons_append, skipType, List.dropWhile_append_of_pos hpass,
      List.dropWhile_cons_of_neg (by decide)]

theorem fromEquals?_eq_some_iff :
    fromEquals? t = some body ↔ ∃ gap, Blanks gap ∧ t = '=' :: (gap ++ '{' :: body) := by
  constructor
  · intro h
    unfold fromEquals? at h
    split at h
    · next cs =>
      split at h
      · next rest hbrace =>
        cases h
        refine ⟨cs.takeWhile isBlank, fun c hc => List.mem_takeWhile_imp hc, ?_⟩
        rw [← hbrace, Text.takeWhile_append_trimStart]
      · cases h
    · cases h
  · rintro ⟨gap, hgap, rfl⟩
    simp only [fromEquals?, Text.trimStart_append_cons hgap (by decide : isBlank '{' = false)]

/-- Between the name and the body stand an optional type annotation, the equals sign and the brace. -/
theorem afterName?_eq_some_iff :
    afterName? t = some body ↔ ∃ gap type gap', Blanks gap ∧ TypeAnnotation type ∧ Blanks gap' ∧
      t = gap ++ (type ++ '=' :: (gap' ++ '{' :: body)) := by
  rw [afterName?_eq]
  constructor
  · intro h
    obtain ⟨gap', hgap', hequals⟩ := fromEquals?_eq_some_iff.mp h
    obtain ⟨type, htype, ht⟩ := exists_eq_append_skipType t.trimStart
    refine ⟨t.takeWhile isBlank, type, gap', fun c hc => List.mem_takeWhile_imp hc, htype, hgap', ?_⟩
    rw [← hequals, ← ht, Text.takeWhile_append_trimStart]
  · rintro ⟨gap, type, gap', hgap, htype, hgap', rfl⟩
    have htrim : Text.trimStart (gap ++ (type ++ '=' :: (gap' ++ '{' :: body))) =
        type ++ '=' :: (gap' ++ '{' :: body) := by
      rcases htype with rfl | ⟨type, rfl, -⟩ <;> exact Text.trimStart_append_cons hgap (by decide) _
    rw [htrim, skipType_append_cons htype]
    exact fromEquals?_eq_some_iff.mpr ⟨gap', hgap', rfl⟩

theorem afterName?_append_of_blanks {g : Text} (hg : Blanks g) (t : Text) :
    afterName? (g ++ t) = afterName? t := by
  rw [afterName?_eq, afterName?_eq, Text.trimStart_append hg]

theorem afterName?_of_ident {g u : Text} {c : Char} (hg : Blanks g) (hc : isIdentChar c = true) :
    afterName? (g ++ c :: u) = none := by
  have hcolon : c ≠ ':' := by rintro rfl; cases hc
  have hequals : c ≠ '=' := by rintro rfl; cases hc
  rw [afterName?, Text.trimStart_append_cons hg (isBlank_of_isIdentChar hc)]
  split
  · next h => split at h <;> simp_all
  · rfl

/-! ## The blanks in front of the name -/

theorem exists_of_afterBlanks? {α : Type} {f : Text → Option α} {x : α} (h : afterBlanks? f t = some x) :
    ∃ gap r, gap ≠ [] ∧ Blanks gap ∧ t = gap ++ r ∧ f r = some x := by
  induction t with
  | nil => cases h
  | cons c cs ih =>
    rw [afterBlanks?] at h
    split at h
    · next hc =>
      rcases Option.or_eq_some_iff.mp h with h | ⟨-, h⟩
      · obtain ⟨gap, r, -, hgap, rfl, hr⟩ := ih h
        exact ⟨c :: gap, r, by simp, blanks_cons.mpr ⟨hc, hgap⟩, rfl, hr⟩
      · exact ⟨[c], cs, by simp, blanks_cons.mpr ⟨hc, blanks_nil⟩, rfl, h⟩
    · cases h

theorem bind_afterName?_eq_some_iff :
    (Text.after? name t).bind afterName? = some body ↔ ∃ r, t = name ++ r ∧ afterName? r = some body := by
  simp only [Option.bind_eq_some_iff, Text.after?_eq_some_iff]

/-- Whether more or fewer blanks are counted to the name, the object is the same. -/
theorem eq_of_afterName? {g r' body' : Text} (hg : Blanks g) (h : name ++ r = g ++ (name ++ r'))
    (hr : afterName? r = some body) (hr' : afterName? r' = some body') : body = body' := by
  rw [← List.append_assoc] at h
  obtain ⟨e, he, rfl⟩ := Text.exists_eq_append_of_length_le h (by simp)
  -- the blanks in front of the name are those behind it
  have hblanks : Blanks e := by
    intro c hc
    have hcount := congrArg (List.count c) he
    simp only [List.count_append] at hcount
    have hpos : 0 < e.count c := List.count_pos_iff.mpr hc
    exact hg c (List.count_pos_iff.mp (by omega))
  rw [afterName?_append_of_blanks hblanks, hr'] at hr
  exact (Option.some.inj hr).symm

theorem afterBlanks?_append_named {gap : Text} (hne : gap ≠ []) (hgap : Blanks gap)
    (hr : afterName? r = some body) :
    afterBlanks? (fun t => (Text.after? name t).bind afterName?) (gap ++ (name ++ r)) = some body := by
  have hnamed : (Text.after? name (name ++ r)).bind afterName? = some body :=
    bind_afterName?_eq_some_iff.mpr ⟨r, rfl, hr⟩
  -- blanks that the name itself starts with lead to nothing else
  have hmore : ∀ body', afterBlanks? (fun t => (Text.after? name t).bind afterName?) (name ++ r) =
      some body' → body' = body := by
    intro body' h
    obtain ⟨g, u, -, hg, hu, hbody'⟩ := exists_of_afterBlanks? h
    obtain ⟨r', rfl, hr'⟩ := bind_afterName?_eq_some_iff.mp hbody'
    exact (eq_of_afterName? hg hu hr hr').symm
  induction gap with
  | nil => exact absurd rfl hne
  | cons c cs ih =>
    obtain ⟨hc, hcs⟩ := blanks_cons.mp hgap
    rw [List.cons_append, afterBlanks?, if_pos hc]
    cases cs with
    | nil =>
      rw [List.nil_append, hnamed]
      cases h : afterBlanks? (fun t => (Text.after? name t).bind afterName?) (name ++ r) with
      | none => rfl
      | some body' => rw [hmore body' h, Option.some_or]
    | cons d ds => rw [ih (List.cons_ne_nil d ds) hcs, Option.some_or]

/-- However the blanks of a header are shared out, the object is the same. -/
theorem atHeader?_eq_some_iff :
    atHeader? name t = some body ↔
      ∃ gap r, gap ≠ [] ∧ Blanks gap ∧ t = "const".toList ++ gap ++ name ++ r ∧
        afterName? r = some body := by
  constructor
  · intro h
    obtain ⟨t', hconst, hafter⟩ := Option.bind_eq_some_iff.mp h
    obtain ⟨gap, u, hne, hgap, rfl, hrest⟩ := exists_of_afterBlanks? hafter
    obtain ⟨r, rfl, hr⟩ := bind_afterName?_eq_some_iff.mp hrest
    refine ⟨gap, r, hne, hgap, ?_, hr⟩
    rw [Text.after?_eq_some_iff.mp hconst, List.append_assoc, List.append_assoc]
  · rintro ⟨gap, r, hne, hgap, rfl, hr⟩
    rw [atHeader?, List.append_assoc, List.append_assoc, Text.after?_eq_some_iff.mpr rfl,
      Option.bind_some]
    exact afterBlanks?_append_named hne hgap hr

end Constify.ObjectLiteral
