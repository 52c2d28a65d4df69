import Constify.Proofs.Substitution.Mention
import Constify.Proofs.Substitution.Scan

/-!
# Counting substitutions

* `Substitution.counts` : how often each substitution is made, one after the other (`Table.counts`);
* `Substitution.hits_applyAll`, `Substitution.totalCount_applyAll` : the report is made of these counts;
* `Substitution.counts_append_cons` : the two sides of a character that stands in no pattern are counted
  each on its own;
* `lift_by_line` : the substitutions of a table are made line by line;
* `Substitution.exists_places` : the report goes through the substitutions in order;
* `Substitution.count_applyAll_add` : how much rarer a character becomes;
* `lift_accounted` : the report accounts for every double quote that goes.
-/

namespace Constify

/-! ## Counts -/

namespace Substitution

/-- How often each substitution is made, when they are made one after the other. -/
def counts : List Substitution → Text → List Nat
  | [], _ => []
  | s :: ss, content => s.count content :: counts ss (s.apply content)

variable {ss : List Substitution} {x : Char}

theorem length_counts (ss : List Substitution) (content : Text) :
    (counts ss content).length = ss.length := by
  induction ss generalizing content with
  | nil => rfl
  | cons s ss ih => rw [counts, List.length_cons, List.length_cons, ih]

theorem hits_applyAll (ss : List Substitution) (content : Text) :
    (applyAll ss content).hits = (ss.zip (counts ss content)).filterMap fun p => p.1.reported p.2 := by
  induction ss generalizing content with
  | nil => rfl
  | cons s ss ih =>
    rw [applyAll, counts, List.zip_cons_cons, List.filterMap_eq_flatMap_toList, List.flatMap_cons,
      ← List.filterMap_eq_flatMap_toList, ← ih]
    rfl

theorem totalCount_eq_sum (hits : List Hit) : totalCount hits = (hits.map Hit.count).sum := by
  induction hits with
  | nil => rfl
  | cons h hits ih => rw [List.map_cons, List.sum_cons, ← ih]; rfl

theorem sum_map_hit? (s : Substitution) (content : Text) {f : Hit → Nat}
    (hf : f ⟨s.context, s.key, 0⟩ = 0) :
    ((s.hit? content).toList.map f).sum = f ⟨s.context, s.key, s.count content⟩ := by
  unfold hit?
  dsimp only
  split
  · next h => rw [h, hf]; rfl
  · exact List.sum_singleton

theorem totalCount_applyAll (ss : List Substitution) (content : Text) :
    totalCount (applyAll ss content).hits = (counts ss content).sum := by
  rw [totalCount_eq_sum]
  induction ss generalizing content with
  | nil => rfl
  | cons s ss ih =>
    rw [applyAll, counts, List.sum_cons, List.map_append, List.sum_append, sum_map_hit? s content rfl, ih]

theorem counts_append_cons (hp : ∀ s ∈ ss, s.pattern ≠ []) (hx : ∀ s ∈ ss, x ∉ s.pattern)
    (a b : Text) :
    counts ss (a ++ x :: b) = List.zipWith (· + ·) (counts ss a) (counts ss b) := by
  induction ss generalizing a b with
  | nil => rfl
  | cons s ss ih =>
    have hcount : s.count (a ++ x :: b) = s.count a + s.count b :=
      Text.countOf_append_cons (hp s (by simp)) (hx s (by simp)) a b
    have happly : s.apply (a ++ x :: b) = s.apply a ++ x :: s.apply b :=
      Text.replaceAll_append_cons (hp s (by simp)) _ (hx s (by simp)) a b
    rw [counts, counts, counts, List.zipWith_cons_cons, hcount, happly,
      ih (fun r hr => hp r (List.mem_cons_of_mem _ hr)) fun r hr => hx r (List.mem_cons_of_mem _ hr)]

theorem sum_counts_append_cons (hp : ∀ s ∈ ss, s.pattern ≠ []) (hx : ∀ s ∈ ss, x ∉ s.pattern)
    (a b : Text) :
    (counts ss (a ++ x :: b)).sum = (counts ss a).sum + (counts ss b).sum := by
  rw [counts_append_cons hp hx, List.sum_add_sum_eq_sum_zipWith_of_length_eq]
  rw [length_counts, length_counts]

end Substitution

namespace Table

/-- How often each substitution of the table is made. -/
def counts (t : Table) (content : Text) : List Nat := Substitution.counts t.substitutions content

variable {t : Table} {content : Text}

theorem hits_lift_ne_nil_iff : (t.lift content).hits ≠ [] ↔ 0 < totalCount (t.lift content).hits := by
  constructor
  · intro h
    obtain ⟨hit, hits, hhits⟩ := List.exists_cons_of_ne_nil h
    have hmem : hit ∈ (t.lift content).hits := by simp [hhits]
    rw [lift, Substitution.hits_applyAll, List.mem_filterMap] at hmem
    obtain ⟨⟨s, n⟩, -, hreported⟩ := hmem
    have hn : n ≠ 0 := by
      rintro rfl
      cases hreported
    rw [Substitution.reported, if_neg hn, Option.some.injEq] at hreported
    rw [hhits, ← hreported]
    exact Nat.add_pos_left (Nat.pos_of_ne_zero hn) _
  · intro h hnil
    rw [hnil] at h
    exact absurd h (lt_irrefl 0)

theorem lift_ne_iff : (t.lift content).content ≠ content ↔ 0 < (t.counts content).sum := by
  rw [counts, ← Substitution.totalCount_applyAll, ← lift, ← hits_lift_ne_nil_iff, Ne, Ne,
    hits_lift_eq_nil_iff]

end Table

/-! ## Line by line -/

structure Table.LiftsApart (t : Table) (a b : Text) : Prop where
  content : (t.lift (a ++ '\n' :: b)).content = (t.lift a).content ++ '\n' :: (t.lift b).content
  changed : (t.lift (a ++ '\n' :: b)).content ≠ a ++ '\n' :: b ↔
    (t.lift a).content ≠ a ∨ (t.lift b).content ≠ b
  /-- Each substitution is made as often as on the two sides together. -/
  counts : t.counts (a ++ '\n' :: b) = List.zipWith (· + ·) (t.counts a) (t.counts b)

/-- The lines of a text are changed each on its own and keep their ends. -/
structure Table.KeepsLines (t : Table) (content : Text) : Prop where
  lines : Text.splitOn '\n' (t.lift content).content =
    (Text.splitOn '\n' content).map fun line => (t.lift line).content
  /-- A line that a carriage return stands at the end of keeps it, and no other line gets one. -/
  returns : ∀ line ∈ Text.splitOn '\n' content,
    (t.lift line).content.getLast? = some '\r' ↔ line.getLast? = some '\r'
  /-- The report is made of the counts, in the order of the substitutions. -/
  hits : (t.lift content).hits =
    (t.substitutions.zip (t.counts content)).filterMap fun p => p.1.reported p.2

/-- **The substitutions of a table are made line by line.** -/
theorem lift_by_line (t : Table) :
    (∀ a b, t.LiftsApart a b) ∧ ∀ content, t.KeepsLines content := by
  have hp : ∀ s ∈ t.substitutions, s.pattern ≠ [] := fun _ hs => Table.pattern_ne_nil hs
  have hx : ∀ s ∈ t.substitutions, '\n' ∉ s.pattern := fun _ hs => Table.newline_not_mem_pattern hs
  constructor
  · intro a b
    constructor
    case content => exact Substitution.applyAll_append_cons hp hx a b
    case counts => exact Substitution.counts_append_cons hp hx a b
    case changed =>
      have hsum := Substitution.sum_counts_append_cons hp hx a b
      rw [Table.lift_ne_iff, Table.lift_ne_iff, Table.lift_ne_iff, Table.counts, hsum]
      exact Nat.add_pos_iff_pos_or_pos
  · intro content
    constructor
    case lines => exact t.splitOn_lift content
    case returns => exact fun line _ => t.getLast?_lift_eq_return_iff
    case hits => exact Substitution.hits_applyAll t.substitutions content

/-! ## The report -/

namespace Substitution

/-- The entry reports the substitution at the place `i`, which is made at least once. -/
def Reports (ss : List Substitution) (content : Text) (i : Nat) (h : Hit) : Prop :=
  ∃ s, ss[i]? = some s ∧ (counts ss content)[i]? = some h.count ∧ 0 < h.count ∧
    h.context = s.context ∧ h.key = s.key

theorem exists_places (ss : List Substitution) (content : Text) :
    ∃ places : List Nat, places.Pairwise (· < ·) ∧
      List.Forall₂ (Reports ss content) places (applyAll ss content).hits := by
  induction ss generalizing content with
  | nil => exact ⟨[], List.Pairwise.nil, List.Forall₂.nil⟩
  | cons s ss ih =>
    obtain ⟨places, hplaces, hreports⟩ := ih (s.apply content)
    have hlater : (places.map (· + 1)).Pairwise (· < ·) :=
      hplaces.map _ fun _ _ h => Nat.add_lt_add_right h 1
    have hrest : List.Forall₂ (Reports (s :: ss) content) (places.map (· + 1))
        (applyAll ss (s.apply content)).hits := by
      rw [List.forall₂_map_left_iff]
      exact hreports
    rw [applyAll]
    by_cases hzero : s.count content = 0
    · refine ⟨_, hlater, ?_⟩
      rwa [hit?, if_pos hzero]
    · refine ⟨0 :: places.map (· + 1), List.pairwise_cons.mpr ⟨fun i hi => ?_, hlater⟩, ?_⟩
      · obtain ⟨j, -, rfl⟩ := List.mem_map.mp hi
        exact Nat.succ_pos j
      · rw [hit?, if_neg hzero]
        exact List.Forall₂.cons ⟨s, rfl, rfl, Nat.pos_of_ne_zero hzero, rfl, rfl⟩ hrest

/-- A character that stands in no replacement becomes rarer with every substitution, by the number of
times that it stands in the pattern. -/
theorem count_applyAll_add {ss : List Substitution} {x : Char} {weight : Context → Nat}
    (hp : ∀ s ∈ ss, s.pattern ≠ []) (hx : ∀ s ∈ ss, s.pattern.count x = weight s.context)
    (hr : ∀ s ∈ ss, x ∉ s.replacement) (content : Text) :
    (applyAll ss content).content.count x +
        ((applyAll ss content).hits.map fun h => h.count * weight h.context).sum =
      content.count x := by
  induction ss generalizing content with
  | nil => exact Nat.add_zero _
  | cons s ss ih =>
    have hrest := ih (fun r hmem => hp r (List.mem_cons_of_mem _ hmem))
      (fun r hmem => hx r (List.mem_cons_of_mem _ hmem))
      (fun r hmem => hr r (List.mem_cons_of_mem _ hmem)) (s.apply content)
    have hstep : (s.apply content).count x + s.count content * weight s.context = content.count x := by
      have hcount := Text.count_replaceAll (hp s (by simp)) s.replacement content x
      rwa [List.count_eq_zero.mpr (hr s (by simp)), Nat.mul_zero, Nat.add_zero, hx s (by simp)] at hcount
    rw [applyAll, List.map_append, List.sum_append, sum_map_hit? s content (Nat.zero_mul _)]
    dsimp only
    omega

end Substitution

/-- The substitutions that were made of single literals, and those of the list of all literals. -/
def singleCount (hits : List Hit) : Nat := totalCount (hits.filter (·.context != .membershipList))

def listCount (hits : List Hit) : Nat := totalCount (hits.filter (·.context == .membershipList))

namespace Table

variable {t : Table}

def quoteCount (t : Table) : Context → Nat
  | .membershipList => 2 * t.entries.length
  | _ => 2

theorem count_quoted {literal : Text} (h : '"' ∉ literal) : (quoted literal).count '"' = 2 := by
  rw [quoted, List.cons_append, List.count_cons_self, List.count_append, List.count_eq_zero.mpr h]
  rfl

theorem count_quote_wrap (c : Context) (text : Text) : (c.wrap text).count '"' = text.count '"' := by
  have hfront : c.front.count '"' = 0 := by cases c <;> rfl
  have hback : c.back.count '"' = 0 := by cases c <;> rfl
  rw [Context.wrap_eq, List.count_append, List.count_append, hfront, hback]
  omega

theorem count_quote_pattern {s : Substitution} (hs : s ∈ t.substitutions) :
    s.pattern.count '"' = t.quoteCount s.context := by
  have hquoted : ∀ e ∈ t.entries, (quoted e.literal).count '"' = 2 := fun e he =>
    count_quoted (t.not_mem_literal he (by decide))
  rcases mem_substitutions_iff.mp hs with rfl | ⟨c, hc, e, he, rfl⟩
  · show (Context.membershipList.wrap _).count '"' = 2 * t.entries.length
    have hseparator : ", ".toList.count '"' = 0 := by decide
    have hall : t.entries.map (List.count '"' ∘ fun e => quoted e.literal) = t.entries.map fun _ => 2 :=
      List.map_congr_left hquoted
    rw [count_quote_wrap, Text.count_intercalate, hseparator, Nat.mul_zero, Nat.add_zero, List.map_map,
      hall, List.map_const', List.sum_replicate, smul_eq_mul, Nat.mul_comm]
  · show (c.wrap (quoted e.literal)).count '"' = t.quoteCount c
    rw [count_quote_wrap, hquoted e he]
    cases c with
    | membershipList => exact absurd rfl hc
    | equality | inequality | callArgument => rfl

theorem sum_quoteCount (t : Table) (hits : List Hit) :
    (hits.map fun h => h.count * t.quoteCount h.context).sum =
      2 * singleCount hits + 2 * t.entries.length * listCount hits := by
  induction hits with
  | nil => rfl
  | cons h hits ih =>
    rw [List.map_cons, List.sum_cons, ih]
    obtain ⟨context, key, count⟩ := h
    cases context with
    | membershipList =>
      show count * (2 * t.entries.length) + _ =
        2 * singleCount hits + 2 * t.entries.length * (count + listCount hits)
      ring
    | equality | inequality | callArgument =>
      show count * 2 + _ = 2 * (count + singleCount hits) + 2 * t.entries.length * listCount hits
      ring

/-- The report accounts for the change of a text. -/
structure Accounted (t : Table) (content : Text) : Prop where
  /-- The entries stand for substitutions at increasing places, each made at least once. -/
  order : ∃ places : List Nat, places.Pairwise (· < ·) ∧
    List.Forall₂ (Substitution.Reports t.substitutions content) places (t.lift content).hits
  /-- A literal takes two double quotes with it, and the list two for each entry. -/
  quotes : content.count '"' = (t.lift content).content.count '"' +
    (2 * singleCount (t.lift content).hits + 2 * t.entries.length * listCount (t.lift content).hits)
  changed : (t.lift content).content ≠ content ↔ (t.lift content).hits ≠ []
  substitutions : (t.lift content).hits ≠ [] ↔ 0 < totalCount (t.lift content).hits

end Table

/-- **The report accounts for every change of a text.** -/
theorem lift_accounted (t : Table) (content : Text) : t.Accounted content := by
  constructor
  case order => exact Substitution.exists_places t.substitutions content
  case quotes =>
    rw [← t.sum_quoteCount]
    exact (Substitution.count_applyAll_add (fun _ hs => Table.pattern_ne_nil hs)
      (fun _ hs => Table.count_quote_pattern hs) (fun _ hs => Table.quote_not_mem_replacement hs)
      content).symm
  case changed => exact not_congr Table.hits_lift_eq_nil_iff.symm
  case substitutions => exact Table.hits_lift_ne_nil_iff

end Constify
