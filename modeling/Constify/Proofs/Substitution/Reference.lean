import Constify.Proofs.Identifier.Token
import Constify.Proofs.Substitution.Idempotence
import Constify.Proofs.Text.Split

/-!
# References that are put in

* `Text.ahead`, `Text.behind` : what stands around one of the copies that a replacement puts in;
* `Text.FollowedFree p t` : no occurrence of `p` in `t` is followed by an identifier character;
* `Table.PutsIn` : the references of a replacement and what stands around them in it;
* `Table.Insertion` : one reference that one substitution puts into a text (`Insertion.placed`);
* `Table.Delimited` : no identifier character follows what the comparisons look for (`delimited_applyAll`);
* `insertions_of_lift` : every reference that a lift puts in is placed, and it runs into what follows it
  exactly if it is the right side of a comparison whose closing quote an identifier character follows.
-/

namespace Constify

/-! ## Around a copy -/

namespace Text

/-- What stands in front of copy number `k` of `q`, from zero, when `q` takes the place of `p`. For `q = p`
this is the text itself. -/
def ahead (p q t : Text) (k : Nat) : Text := q.intercalate ((gaps p t).take (k + 1))

/-- What stands behind that copy. -/
def behind (p q t : Text) (k : Nat) : Text := q.intercalate ((gaps p t).drop (k + 1))

variable {p q t : Text} {k : Nat}

theorem replaceAll_eq_ahead (q : Text) (hk : k < countOf p t) :
    replaceAll p q t = ahead p q t k ++ q ++ behind p q t k := by
  rw [countOf] at hk
  rw [ahead, behind, ← intercalate_append_of_ne_nil, List.take_append_drop, replaceAll]
  · rw [← List.length_pos_iff, List.length_take]
    omega
  · rw [← List.length_pos_iff, List.length_drop]
    omega

theorem eq_ahead (hp : p ≠ []) (hk : k < countOf p t) :
    t = ahead p p t k ++ p ++ behind p p t k := by
  rw [← replaceAll_eq_ahead p hk, replaceAll, intercalate_gaps hp]

theorem startsFree_intercalate (hp : ∃ c r, p = c :: r ∧ isIdentChar c = false)
    (hq : ∃ c r, q = c :: r ∧ isIdentChar c = false) (gs : List Text) :
    startsFree (q.intercalate gs) = startsFree (p.intercalate gs) := by
  obtain ⟨c, r, rfl, hc⟩ := hp
  obtain ⟨d, r', rfl, hd⟩ := hq
  cases gs with
  | nil => rfl
  | cons g gs =>
    cases gs with
    | nil => rw [List.intercalate_singleton, List.intercalate_singleton]
    | cons g' gs =>
      rw [List.intercalate_cons_cons, List.intercalate_cons_cons]
      cases g with
      | nil => simp [startsFree, hc, hd]
      | cons x g => rfl

/-- What follows a copy starts with an identifier character exactly if that is so of what follows the
occurrence in whose place it stands. -/
theorem startsFree_behind (hp : ∃ c r, p = c :: r ∧ isIdentChar c = false)
    (hq : ∃ c r, q = c :: r ∧ isIdentChar c = false) :
    startsFree (behind p q t k) = startsFree (behind p p t k) :=
  startsFree_intercalate hp hq _

/-! ## Occurrences that no identifier character follows -/

/-- No occurrence of `p` is followed by an identifier character. -/
def FollowedFree (p t : Text) : Prop := ∀ a b, t = a ++ p ++ b → startsFree b = true

theorem followedFree_iff_tails :
    FollowedFree p t ↔ ∀ r ∈ t.tails, ∀ b ∈ after? p r, startsFree b = true := by
  constructor
  · intro h r hr b hb
    obtain ⟨a, rfl⟩ := (List.mem_tails _ _).mp hr
    rw [after?_eq_some_iff.mp hb] at h
    exact h a b (List.append_assoc ..).symm
  · rintro h a b rfl
    refine h (p ++ b) ((List.mem_tails _ _).mpr ⟨a, (List.append_assoc ..).symm⟩) b ?_
    exact after?_eq_some_iff.mpr rfl

instance : Decidable (FollowedFree p t) := decidable_of_iff _ followedFree_iff_tails.symm

theorem followedFree_iff_not_infix :
    FollowedFree p t ↔ ∀ c, isIdentChar c = true → ¬ p ++ [c] <:+: t := by
  constructor
  · rintro h c hc ⟨a, b, rfl⟩
    have hfree := h a (c :: b) (by simp)
    rw [startsFree_iff] at hfree
    rw [hfree c rfl] at hc
    cases hc
  · rintro h a b rfl
    rw [startsFree_iff]
    intro c hc
    rw [Bool.eq_false_iff]
    intro hident
    obtain ⟨r, rfl⟩ := List.head?_eq_some_iff.mp hc
    exact h c hident ⟨a, r, by simp⟩

theorem Apart.append_singleton {c : Char} (h : Apart p q) (hq : q ≠ []) (hc : ∀ d ∈ q.head?, d ≠ c) :
    Apart (p ++ [c]) q := by
  intro a b a' b' heq
  have hsplit : a ++ p ++ (c :: b) = a' ++ q ++ b' := by simpa using heq
  rcases h a (c :: b) a' b' hsplit with hle | hle
  · refine Or.inl ?_
    rw [List.length_append, List.length_singleton]
    rcases Nat.lt_or_eq_of_le hle with hlt | hlen
    · omega
    · -- the character would be the first of `q`
      obtain ⟨d, r, rfl⟩ := List.exists_cons_of_ne_nil hq
      rw [List.append_assoc a'] at hsplit
      have hrest := (List.append_inj hsplit (by simpa using hlen)).2
      exact absurd (List.cons.inj hrest).1.symm (hc d rfl)
  · exact Or.inr hle

end Text

/-! ## References in replacements -/

namespace Substitution

theorem content_applyAll_append (done rest : List Substitution) (content : Text) :
    (applyAll (done ++ rest) content).content =
      (applyAll rest (applyAll done content).content).content := by
  induction done generalizing content with
  | nil => rfl
  | cons s done ih => exact ih (s.apply content)

end Substitution

namespace Table

/-- A substitution puts in a reference to an entry, between two texts of its replacement. -/
inductive PutsIn (t : Table) : Substitution → Entry → Text → Text → Prop
  | single {c : Context} {e : Entry} (hc : c ≠ .membershipList) (he : e ∈ t.entries) :
      PutsIn t (t.entrySubstitution c e) e c.front c.back
  | listed {front back : List Entry} {e : Entry} (h : t.entries = front ++ e :: back) :
      PutsIn t t.listSubstitution e
        ('[' :: front.flatMap fun x => t.reference x ++ ", ".toList)
        ((back.flatMap fun x => ", ".toList ++ t.reference x) ++ [']'])

variable {t : Table} {s : Substitution} {e : Entry} {left right : Text}

theorem PutsIn.replacement_eq (h : t.PutsIn s e left right) :
    s.replacement = left ++ t.reference e ++ right := by
  cases h with
  | single hc he => exact Context.wrap_eq _ _
  | listed h =>
    show '[' :: ", ".toList.intercalate (t.entries.map t.reference) ++ [']'] = _
    rw [h, List.map_append, List.map_cons, Text.intercalate_append_eq_flatMap _ _ (by simp),
      Text.intercalate_cons_eq_flatMap, List.flatMap_map, List.flatMap_map]
    simp only [List.cons_append, List.append_assoc]

theorem PutsIn.mem_entries (h : t.PutsIn s e left right) : e ∈ t.entries := by
  cases h with
  | single hc he => exact he
  | listed h => simp [h]

theorem PutsIn.mem_substitutions (h : t.PutsIn s e left right) : s ∈ t.substitutions := by
  rw [mem_substitutions_iff]
  cases h with
  | single hc he => exact Or.inr ⟨_, hc, _, he, rfl⟩
  | listed h => exact Or.inl rfl

/-- A bracket or a comma follows the references of lists and calls, and nothing those of comparisons. -/
theorem PutsIn.startsFree_right (h : t.PutsIn s e left right) (y : Text) :
    startsFree (right ++ y) = true ∧ (s.context = .membershipList ∨ s.context = .callArgument) ∨
      right = [] ∧ (s.context = .equality ∨ s.context = .inequality) := by
  cases h with
  | @single c _ hc he =>
    show _ ∧ (c = _ ∨ c = _) ∨ _ ∧ (c = _ ∨ c = _)
    cases c with
    | membershipList => exact absurd rfl hc
    | equality => exact Or.inr ⟨rfl, Or.inl rfl⟩
    | inequality => exact Or.inr ⟨rfl, Or.inr rfl⟩
    | callArgument => exact Or.inl ⟨rfl, Or.inr rfl⟩
  | @listed _ back _ h =>
    refine Or.inl ⟨?_, Or.inl rfl⟩
    cases back <;> rfl

theorem exists_pattern_cons (hs : s ∈ t.substitutions) :
    ∃ c r, s.pattern = c :: r ∧ isIdentChar c = false := by
  obtain ⟨m, -, hp, -⟩ := t.exists_shape hs
  rw [hp, Context.wrap_quoted]
  cases s.context <;> exact ⟨_, _, rfl, rfl⟩

theorem exists_replacement_cons (hs : s ∈ t.substitutions) :
    ∃ c r, s.replacement = c :: r ∧ isIdentChar c = false := by
  obtain ⟨-, r, -, hr, -⟩ := t.exists_shape hs
  rw [hr, Context.wrap_eq]
  cases s.context <;> exact ⟨_, _, rfl, rfl⟩

/-! ## One reference -/

/-- One reference that a substitution puts into a text: the entry, the copy of the replacement and the
place in it. -/
structure Insertion (t : Table) (s : Substitution) (content : Text) where
  entry : Entry
  copy : Nat
  left : Text
  right : Text
  copy_lt : copy < s.count content
  putsIn : t.PutsIn s entry left right

namespace Insertion

variable {content : Text}

/-- What stands in front of the reference. -/
def ahead (i : t.Insertion s content) : Text :=
  Text.ahead s.pattern s.replacement content i.copy ++ i.left

/-- What stands behind the reference. -/
def behind (i : t.Insertion s content) : Text :=
  i.right ++ Text.behind s.pattern s.replacement content i.copy

def precedes (i : t.Insertion s content) : Text := Text.ahead s.pattern s.pattern content i.copy

def follows (i : t.Insertion s content) : Text := Text.behind s.pattern s.pattern content i.copy

/-- Where a reference is put in and how it is read there. -/
structure Placed (i : t.Insertion s content) : Prop where
  old : content = i.precedes ++ s.pattern ++ i.follows
  new : s.apply content = i.ahead ++ t.reference i.entry ++ i.behind
  /-- The key goes on with the identifier characters that stand behind it. -/
  key : identRun (i.entry.key ++ i.behind) = i.entry.key ++ identRun i.behind
  /-- Such characters stand there only behind a comparison, if they followed the closing quote. -/
  runsOn : startsFree i.behind = false ↔
    (s.context = .equality ∨ s.context = .inequality) ∧ startsFree i.follows = false

theorem placed (i : t.Insertion s content) : i.Placed := by
  have hs := i.putsIn.mem_substitutions
  constructor
  case old => exact Text.eq_ahead (pattern_ne_nil hs) i.copy_lt
  case new =>
    have hcopy : s.apply content = Text.ahead s.pattern s.replacement content i.copy ++
        (i.left ++ t.reference i.entry ++ i.right) ++
          Text.behind s.pattern s.replacement content i.copy := by
      rw [← i.putsIn.replacement_eq]
      exact Text.replaceAll_eq_ahead _ i.copy_lt
    rw [hcopy, ahead, behind]
    simp only [List.append_assoc]
  case key => exact identRun_append_of_isIdentifier (t.key_valid i.putsIn.mem_entries) _
  case runsOn =>
    have hfree := Text.startsFree_behind (t := content) (k := i.copy) (exists_pattern_cons hs)
      (exists_replacement_cons hs)
    rw [behind, follows]
    rcases i.putsIn.startsFree_right (Text.behind s.pattern s.replacement content i.copy) with
      ⟨hright, hcontext⟩ | ⟨hright, hcontext⟩
    · rw [hright]
      rcases hcontext with hcontext | hcontext <;> simp [hcontext]
    · rw [hright, List.nil_append, hfree]
      exact (and_iff_right hcontext).symm

end Insertion

/-! ## One substitution after the other -/

/-- Behind no text that a comparison of the table looks for stands an identifier character. -/
def Delimited (t : Table) (content : Text) : Prop :=
  ∀ s ∈ t.substitutions, s.context = .equality ∨ s.context = .inequality →
    Text.FollowedFree s.pattern content

instance (t : Table) (content : Text) : Decidable (t.Delimited content) := by
  unfold Delimited
  infer_instance

theorem delimited_apply (ht : t.Unmixed) (hs : s ∈ t.substitutions) {content : Text}
    (h : t.Delimited content) : t.Delimited (s.apply content) := by
  intro r hr hcontext
  rw [Text.followedFree_iff_not_infix]
  intro c hc
  refine Text.not_infix_replaceAll (pattern_ne_nil hs) ?_ ?_
  · refine (apart ht hr hs).append_singleton (replacement_ne_nil hs) ?_
    obtain ⟨d, rest, hd, hident⟩ := exists_replacement_cons hs
    rintro x hx rfl
    rw [hd, List.head?_cons, Option.mem_some_iff] at hx
    rw [hx, hc] at hident
    cases hident
  · exact Text.followedFree_iff_not_infix.mp (h r hr hcontext) c hc

theorem delimited_applyAll (ht : t.Unmixed) {ss : List Substitution} (hss : ∀ s ∈ ss, s ∈ t.substitutions)
    {content : Text} (h : t.Delimited content) :
    t.Delimited (Substitution.applyAll ss content).content := by
  induction ss generalizing content with
  | nil => exact h
  | cons s ss ih =>
    exact ih (fun r hr => hss r (List.mem_cons_of_mem _ hr)) (delimited_apply ht (hss s (by simp)) h)

end Table

/-- **Where a reference runs into what follows it.** Each reference that a substitution puts in, after the
substitutions in front of it, is read as it stands unless it is the right side of a comparison and an
identifier character followed the closing quote. If no literal holds the front of a reference, it is enough
to look at the first text. -/
theorem insertions_of_lift (t : Table) (content : Text) {done rest : List Substitution}
    {s : Substitution} (hsplit : t.substitutions = done ++ s :: rest) :
    (t.lift content).content =
        (Substitution.applyAll rest (s.apply (Substitution.applyAll done content).content)).content ∧
      (∀ i : t.Insertion s (Substitution.applyAll done content).content, i.Placed) ∧
      (t.Unmixed → t.Delimited content →
        ∀ i : t.Insertion s (Substitution.applyAll done content).content,
          startsFree i.behind = true ∧ identRun (i.entry.key ++ i.behind) = i.entry.key) := by
  refine ⟨?_, fun i => i.placed, fun ht hcontent i => ?_⟩
  · rw [Table.lift, hsplit]
    exact Substitution.content_applyAll_append done (s :: rest) content
  have hdone : ∀ r ∈ done, r ∈ t.substitutions := fun r hr => by
    rw [hsplit]
    exact List.mem_append_left _ hr
  have hbefore := Table.delimited_applyAll ht hdone hcontent
  have hplaced := i.placed
  have hfree : startsFree i.behind = true := by
    by_contra hruns
    obtain ⟨hcontext, hfollows⟩ := hplaced.runsOn.mp (by simpa using hruns)
    rw [hbefore s i.putsIn.mem_substitutions hcontext _ _ hplaced.old] at hfollows
    cases hfollows
  refine ⟨hfree, ?_⟩
  rw [hplaced.key, identRun_of_startsFree hfree, List.append_nil]

def snackEntry : Entry := ⟨"snacks".toList, "snacks".toList⟩

def snackTable : Table where
  identifier := Table.standardIdentifier
  entries := [⟨"fats".toList, "fats".toList⟩, snackEntry]
  identifier_valid := Table.standard.identifier_valid
  entries_ne_nil := List.cons_ne_nil _ _
  entries_valid := by decide

def comparedSnacks : Text := "a === \"fats\" || b !== \"snacks\"; pick(\"fats\")".toList

/-- The reference of the second comparison, put in when the equalities and the first inequality are done. -/
def snackInsertion : snackTable.Insertion (snackTable.entrySubstitution .inequality snackEntry)
    (Substitution.applyAll (snackTable.substitutions.take 3) comparedSnacks).content where
  entry := snackEntry
  copy := 0
  left := Context.inequality.front
  right := Context.inequality.back
  copy_lt := by decide
  putsIn := .single (by decide) (by decide)

theorem insertions_of_lift_snacks :
    snackTable.substitutions = snackTable.substitutions.take 3 ++
        snackTable.entrySubstitution .inequality snackEntry :: snackTable.substitutions.drop 4 ∧
      snackTable.Unmixed ∧ snackTable.Delimited comparedSnacks ∧ snackInsertion.Placed ∧
        identRun (snackInsertion.entry.key ++ snackInsertion.behind) = "snacks".toList := by
  have hsplit : snackTable.substitutions = snackTable.substitutions.take 3 ++
      snackTable.entrySubstitution .inequality snackEntry :: snackTable.substitutions.drop 4 := rfl
  have hunmixed : snackTable.Unmixed := by decide
  have hdelimited : snackTable.Delimited comparedSnacks := by decide
  have hplaced := insertions_of_lift snackTable comparedSnacks hsplit
  exact ⟨hsplit, hunmixed, hdelimited, hplaced.2.1 _,
    (hplaced.2.2 hunmixed hdelimited snackInsertion).2⟩

def snackMembership : Text := "x === \"snacks\"in y".toList

/-- In the comparison of a literal that an operator follows at once the reference runs into the operator,
and the table has no such key. -/
theorem runsOn_snackMembership :
    snackTable.substitutions = snackTable.substitutions.take 1 ++
        snackTable.entrySubstitution .equality snackEntry :: snackTable.substitutions.drop 2 ∧
    ∃ i : snackTable.Insertion (snackTable.entrySubstitution .equality snackEntry)
        (Substitution.applyAll (snackTable.substitutions.take 1) snackMembership).content,
      startsFree i.behind = false ∧
        (snackTable.lift snackMembership).content = "x === CATEGORIES.snacksin y".toList ∧
        identRun (i.entry.key ++ i.behind) = "snacksin".toList ∧
        ∀ e ∈ snackTable.entries, e.key ≠ "snacksin".toList :=
  ⟨rfl, ⟨snackEntry, 0, Context.equality.front, Context.equality.back, by decide,
    .single (by decide) (by decide)⟩, by decide, by decide, by decide, by decide⟩

end Constify
