import Constify.Proofs.Substitution.Idempotence
import Constify.Proofs.Substitution.Scan

/-!
# The substitutions of a table made at once

* `Table.Separable` : literals that are distinct and hold no character that opens a context;
* `Context.exclusive_front_append` : texts that open a context at their front and nowhere else exclude
  each other;
* `Table.eq_of_pattern_append_eq` : two substitutions whose patterns stand at one place are the same;
* `Table.independent_substitutions` : the substitutions of such a table are independent;
* `lift_eq_simultaneous` : they are made as if at once.
-/

namespace Constify

open Text (Exclusive occurrences)

/-! ## Characters that open contexts -/

def opensContext (c : Char) : Bool := c == '=' || c == '!' || c == '[' || c == '('

namespace Context

theorem exists_front_eq_cons (c : Context) : ∃ x front, c.front = x :: front ∧ opensContext x = true := by
  cases c <;> exact ⟨_, _, rfl, rfl⟩

theorem eq_of_front_append_eq {c d : Context} {x y : Text} (h : c.front ++ x = d.front ++ y) :
    c = d := by
  cases c <;> cases d <;> simp [front] at h ⊢

theorem tail_append_front_ne (c d : Context) {u : Text} (hu : u ≠ []) (hsuffix : u <:+ c.front.tail)
    (x y : Text) : u ++ x ≠ d.front ++ y := by
  rw [← List.mem_tails] at hsuffix
  cases c with
  | membershipList | callArgument => exact absurd (by simpa [front] using hsuffix) hu
  | equality | inequality =>
    simp only [front, List.tail_cons, List.tails, List.mem_cons, hu, List.not_mem_nil, or_false] at hsuffix
    rcases hsuffix with rfl | rfl | rfl <;> cases d <;> simp [front]

/-- No context opens behind the first character of a text that opens one and holds no opening character
behind its front. -/
theorem suffix_append_front_ne (c d : Context) {m v : Text} (hm : ∀ x ∈ m, opensContext x = false)
    (hv : v ≠ []) (hsuffix : v <:+ c.front ++ m) (hne : v ≠ c.front ++ m) (x y : Text) :
    v ++ x ≠ d.front ++ y := by
  have hplain : ∀ v x : Text, v ≠ [] → v <:+ m → v ++ x ≠ d.front ++ y := by
    intro v x hv hsuffix h
    obtain ⟨k, v, rfl⟩ := List.exists_cons_of_ne_nil hv
    obtain ⟨i, front, hfront, hi⟩ := d.exists_front_eq_cons
    rw [hfront] at h
    obtain ⟨rfl, -⟩ := List.cons.inj h
    rw [hm k (hsuffix.subset (by simp))] at hi
    cases hi
  obtain ⟨w, hw⟩ := hsuffix
  rcases List.append_eq_append_iff.mp hw with ⟨u, hu, rfl⟩ | ⟨u, rfl, rfl⟩
  · -- `u` is what the front has of the text
    by_cases hnil : u = []
    · subst hnil
      exact hplain m x hv (List.suffix_refl m)
    · have hw : w ≠ [] := by
        rintro rfl
        exact hne (by rw [hu, List.nil_append])
      obtain ⟨i, w, rfl⟩ := List.exists_cons_of_ne_nil hw
      rw [List.append_assoc]
      refine tail_append_front_ne c d hnil ?_ _ _
      rw [hu, List.cons_append, List.tail_cons]
      exact List.suffix_append w u
  · exact hplain v x hv (List.suffix_append u v)

/-- Texts that open contexts and hold no opening character behind their fronts exclude each other, if
they are the same where they stand at one place. -/
theorem exclusive_front_append (c d : Context) {m m' : Text} (hm : ∀ x ∈ m, opensContext x = false)
    (hm' : ∀ x ∈ m', opensContext x = false)
    (hsame : ∀ x y, c.front ++ m ++ x = d.front ++ m' ++ y → c.front ++ m = d.front ++ m') :
    Exclusive (c.front ++ m) (d.front ++ m') := by
  refine Exclusive.intro (fun v hv hsuffix hne x y => ?_) (fun v hv hsuffix hne x y => ?_) hsame
  · rw [List.append_assoc]
    exact suffix_append_front_ne c d hm hv hsuffix hne _ _
  · rw [List.append_assoc]
    exact suffix_append_front_ne d c hm' hv hsuffix hne _ _

end Context

/-! ## Tables whose literals open no context -/

/-- The literals of the table are distinct and hold no character that opens a context. -/
structure Table.Separable (t : Table) : Prop where
  nodup : (t.entries.map Entry.literal).Nodup
  plain : ∀ e ∈ t.entries, ∀ c ∈ e.literal, opensContext c = false

namespace Table

variable {t : Table} {s r : Substitution}

theorem separable_of_ofNames {name : Text} {names : List Text} (h : ofNames name names = .ok t)
    (hnodup : names.Nodup) : t.Separable := by
  have hentries := (identifier_of_ofEntries h).2
  constructor
  case nodup =>
    rw [hentries, List.map_map]
    exact (List.map_id names).symm ▸ hnodup
  case plain =>
    intro e he c hc
    have hkey := t.key_valid he
    rw [hentries, List.mem_map] at he
    obtain ⟨tag, -, rfl⟩ := he
    have hident : isIdentChar c = true := isIdentChar_of_mem hkey hc
    rw [Bool.eq_false_iff]
    intro hopens
    simp only [opensContext, Bool.or_eq_true, beq_iff_eq] at hopens
    rcases hopens with ((rfl | rfl) | rfl) | rfl <;> exact absurd hident (by decide)

/-! ### What stands behind the fronts -/

theorem exists_pattern_plain (ht : t.Separable) (hs : s ∈ t.substitutions) :
    ∃ m, s.pattern = s.context.front ++ m ∧ ∀ x ∈ m, opensContext x = false := by
  obtain ⟨m, -, hp, -, -, hm⟩ := t.exists_shape hs
  refine ⟨_, by rw [hp, Context.wrap_quoted], fun x hx => ?_⟩
  by_contra hopens
  have hmem : x ∈ m := by
    simp only [List.mem_cons, List.mem_append] at hx
    rcases hx with rfl | hx | rfl | hx
    · exact absurd rfl hopens
    · exact hx
    · exact absurd rfl hopens
    · refine absurd ?_ hopens
      cases hc : s.context <;> simp [hc, Context.back] at hx <;> subst hx <;> rfl
  rw [← List.singleton_infix_iff] at hmem
  refine hm [x] (fun c hc hcx => ?_) (fun e he hlit => ?_) hmem
  · obtain rfl := List.mem_singleton.mp hcx
    rcases eq_of_mem_quoteSeparator hc with rfl | rfl | rfl <;> exact hopens rfl
  · rw [List.singleton_infix_iff] at hlit
    exact hopens (ht.plain e he x hlit)

theorem exists_replacement_plain (hs : s ∈ t.substitutions) :
    ∃ m, s.replacement = s.context.front ++ m ∧ ∀ x ∈ m, opensContext x = false := by
  obtain ⟨-, r, -, hr, href, -⟩ := t.exists_shape hs
  refine ⟨r ++ s.context.back, by rw [hr, Context.wrap_eq, List.append_assoc], fun x hx => ?_⟩
  rw [Bool.eq_false_iff]
  intro hopens
  simp only [opensContext, Bool.or_eq_true, beq_iff_eq] at hopens
  rcases List.mem_append.mp hx with hx | hx
  · have hchar := href.chars x hx
    rcases hopens with ((rfl | rfl) | rfl) | rfl <;> exact absurd hchar (by decide)
  · rcases hopens with ((rfl | rfl) | rfl) | rfl <;> revert hx <;> cases s.context <;> decide

/-! ### Patterns at one place -/

theorem eq_of_wrap_literal_append_eq (ht : t.Separable) {c : Context} {e e' : Entry}
    (he : e ∈ t.entries) (he' : e' ∈ t.entries) {x y : Text}
    (h : c.wrap (quoted e.literal) ++ x = c.wrap (quoted e'.literal) ++ y) : e = e' := by
  refine List.inj_on_of_nodup_map ht.nodup he he' ?_
  rw [Context.wrap_quoted, Context.wrap_quoted, List.append_assoc, List.append_assoc] at h
  have hquote : ∀ {a}, a ∈ t.entries → '"' ∉ a.literal := fun ha => t.not_mem_literal ha (by decide)
  have hrest := List.append_cancel_left h
  simp only [List.cons_append, List.append_assoc, List.cons.injEq, true_and] at hrest
  have hsplit := congrArg (List.splitOn '"') hrest
  rw [List.splitOn_append_cons_self_of_not_mem (hquote he),
    List.splitOn_append_cons_self_of_not_mem (hquote he')] at hsplit
  exact (List.cons.inj hsplit).1

theorem eq_of_pattern_append_eq (ht : t.Separable) (hs : s ∈ t.substitutions)
    (hr : r ∈ t.substitutions) {x y : Text} (h : s.pattern ++ x = r.pattern ++ y) : s = r := by
  have hcontext : s.context = r.context := by
    obtain ⟨m, hm, -⟩ := exists_pattern_plain ht hs
    obtain ⟨m', hm', -⟩ := exists_pattern_plain ht hr
    rw [hm, hm', List.append_assoc, List.append_assoc] at h
    exact Context.eq_of_front_append_eq h
  rcases mem_substitutions_iff.mp hs with rfl | ⟨c, hc, e, he, rfl⟩ <;>
    rcases mem_substitutions_iff.mp hr with rfl | ⟨d, hd, e', he', rfl⟩
  · rfl
  · exact absurd hcontext.symm hd
  · exact absurd hcontext hc
  · obtain rfl : c = d := hcontext
    rw [eq_of_wrap_literal_append_eq ht he he' h]

theorem pattern_append_ne_replacement_append (hs : s ∈ t.substitutions) (hr : r ∈ t.substitutions)
    (x y : Text) : s.pattern ++ x ≠ r.replacement ++ y := by
  intro h
  obtain ⟨m, -, hp, -⟩ := t.exists_shape hs
  obtain ⟨-, u, -, hq, hu, -⟩ := t.exists_shape hr
  rw [hp, hq, Context.wrap_quoted, Context.wrap_eq, List.append_assoc, List.append_assoc,
    List.append_assoc] at h
  rw [Context.eq_of_front_append_eq h] at h
  obtain ⟨i, u, rfl, hi⟩ := hu.head t.identifier_valid
  obtain ⟨rfl, -⟩ := List.cons.inj (List.append_cancel_left h)
  exact absurd hi (by decide)

theorem nodup_substitutions (ht : t.Separable) : t.substitutions.Nodup := by
  have hfamily : ∀ c, (t.entries.map (t.entrySubstitution c)).Nodup := by
    intro c
    refine List.Nodup.map_on (fun e he e' he' h => ?_) (List.Nodup.of_map _ ht.nodup)
    refine eq_of_wrap_literal_append_eq ht he he' (c := c) (x := []) (y := []) ?_
    rw [List.append_nil, List.append_nil]
    exact congrArg Substitution.pattern h
  have hcontext : ∀ c, ∀ s ∈ t.entries.map (t.entrySubstitution c), s.context = c := by
    intro c s hs
    obtain ⟨e, -, rfl⟩ := List.mem_map.mp hs
    rfl
  -- the families differ in their contexts
  rw [substitutions, List.nodup_append, List.nodup_append, List.nodup_cons]
  refine ⟨⟨hfamily _, hfamily _, fun s hs r hr => ?_⟩, ⟨fun hs => ?_, hfamily _⟩, fun s hs r hr => ?_⟩
  · rintro rfl
    exact absurd ((hcontext _ s hs).symm.trans (hcontext _ s hr)) (by decide)
  · exact absurd (hcontext _ _ hs) (show Context.membershipList ≠ .callArgument by decide)
  · rintro rfl
    have hcall : s.context = .membershipList ∨ s.context = .callArgument := by
      rcases List.mem_cons.mp hr with rfl | hr
      · exact Or.inl rfl
      · exact Or.inr (hcontext _ s hr)
    rcases List.mem_append.mp hs with hs | hs <;> rw [hcontext _ s hs] at hcall <;>
      exact absurd hcall (by decide)

theorem independent_substitutions (ht : t.Separable) : Substitution.Independent t.substitutions where
  nodup := nodup_substitutions ht
  ne_nil _ hs := pattern_ne_nil hs
  inj s hs r hr h := eq_of_pattern_append_eq ht hs hr (x := []) (y := []) (by rw [h])
  exclusive s hs r hr := by
    have hsame : ∀ x y, s.pattern ++ x = r.pattern ++ y → s.pattern = r.pattern :=
      fun x y h => by rw [eq_of_pattern_append_eq ht hs hr h]
    obtain ⟨m, hp, hm⟩ := exists_pattern_plain ht hs
    obtain ⟨m', hq, hm'⟩ := exists_pattern_plain ht hr
    rw [hp, hq] at hsame ⊢
    exact Context.exclusive_front_append _ _ hm hm' hsame
  apart s hs r hr := by
    have hne : s.pattern ≠ r.replacement := fun h =>
      quote_not_mem_replacement hr (h ▸ quote_mem_pattern hs)
    have hsame : ∀ x y, s.pattern ++ x = r.replacement ++ y → s.pattern = r.replacement :=
      fun x y h => absurd h (pattern_append_ne_replacement_append hs hr x y)
    obtain ⟨m, hp, hm⟩ := exists_pattern_plain ht hs
    obtain ⟨m', hq, hm'⟩ := exists_replacement_plain hr
    rw [hp, hq] at hsame hne ⊢
    exact (Context.exclusive_front_append _ _ hm hm' hsame).apart hne

end Table

/-! ## Made at once -/

/-- The substitutions `ss` are made in `text` as if at once, with the given result. -/
structure Substitution.MadeAtOnce (ss : List Substitution) (text : Text) (result : Lifted) : Prop where
  /-- No two occurrences of patterns overlap. -/
  separate : ∀ s ∈ ss, ∀ r ∈ ss, ∀ a b a' b',
    text = a ++ s.pattern ++ b → text = a' ++ r.pattern ++ b' →
      (s = r ∧ a = a') ∨ a.length + s.pattern.length ≤ a'.length ∨
        a'.length + r.pattern.length ≤ a.length
  /-- The pieces of one scan make up the text. -/
  scan : (pieces ss text).flatMap Piece.source = text
  /-- The scan finds a pattern as often as it stands in the text. -/
  found : ∀ s ∈ ss, (pieces ss text).count (.found s) = occurrences s.pattern text
  /-- The found patterns are replaced and all else is left as it is. -/
  content : result.content = (pieces ss text).flatMap Piece.target
  /-- Each substitution is reported with the number of places where its pattern stands in the text. -/
  hits : result.hits = ss.filterMap fun s => s.reported (occurrences s.pattern text)

/-- **The substitutions of a table are made as if at once.** It takes literals that are distinct and
hold no character that opens a context, as in every table of names without repetition. Any other order
gives the same text and the same counts. -/
theorem lift_eq_simultaneous :
    (∀ name names t, Table.ofNames name names = .ok t → names.Nodup → t.Separable) ∧
      ∀ t : Table, t.Separable → ∀ text,
        Substitution.MadeAtOnce t.substitutions text (t.lift text) ∧
          ∀ ss : List Substitution, ss.Perm t.substitutions →
            (Substitution.applyAll ss text).content = (t.lift text).content ∧
              (Substitution.applyAll ss text).hits =
                ss.filterMap fun s => s.reported (occurrences s.pattern text) := by
  refine ⟨fun name names t h hnodup => Table.separable_of_ofNames h hnodup, fun t ht text => ?_⟩
  have hind : Substitution.Independent t.substitutions := Table.independent_substitutions ht
  have happly := fun {ss : List Substitution} (hss : ss.Perm t.substitutions) =>
    Substitution.applyAll_of_perm hind hss text
  have hlift := happly (List.Perm.refl _)
  constructor
  · constructor
    case separate =>
      intro s hs r hr a b a' b' hsplit hsplit'
      refine (hind.exclusive s hs r hr a b a' b' (hsplit.symm.trans hsplit')).imp_left ?_
      rintro ⟨ha, hpattern⟩
      exact ⟨hind.inj s hs r hr hpattern, ha⟩
    case scan => exact Substitution.flatMap_source_pieces hind.ne_nil text
    case found => exact fun s hs => Substitution.count_pieces_eq_occurrences hind hs text
    case content => rw [Table.lift, hlift]
    case hits => rw [Table.lift, hlift]
  · intro ss hss
    rw [Table.lift, hlift, happly hss]
    exact ⟨rfl, rfl⟩

def bracketTable : Table where
  identifier := ['C']
  entries := [⟨['a'], ['a', ')']⟩, ⟨['b'], [']', ' ', 'b']⟩]
  identifier_valid := operatorTable.identifier_valid
  entries_ne_nil := by decide
  entries_valid := by decide

/-- The text `!=== "] b"` holds the pattern of an equality and not that of an inequality. -/
theorem lift_eq_simultaneous_bracketTable :
    Table.standard.Separable ∧ bracketTable.Separable ∧
      bracketTable.substitutions.reverse.Perm bracketTable.substitutions ∧
      (Substitution.applyAll bracketTable.substitutions.reverse
        "f(\"a)\") !=== \"] b\" [\"a)\", \"] b\"]".toList).content =
          (bracketTable.lift "f(\"a)\") !=== \"] b\" [\"a)\", \"] b\"]".toList).content := by
  have ht : bracketTable.Separable := ⟨by decide, by simp [bracketTable, opensContext]⟩
  have hreverse := List.reverse_perm bracketTable.substitutions
  exact ⟨lift_eq_simultaneous.1 _ _ _ Table.ofNames_standard (by decide), ht, hreverse,
    ((lift_eq_simultaneous.2 bracketTable ht _).2 _ hreverse).1⟩

end Constify
