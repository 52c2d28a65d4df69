import Constify.Proofs.Table.Literal

/-!
# Objects that a text defines

What is found in a module's text, said without the search for it.

* `ObjectLiteral.IsHeader`, `ObjectLiteral.Opens` : a header of the object, and the text behind the first one
  (`opening?_eq_some_iff`);
* `ObjectLiteral.Closes` : the body before the brace that closes the object (`untilClose?_eq_some_iff`);
* `ObjectLiteral.StartsPair`, `ObjectLiteral.HasPairs` : a pair, and the pairs of a body from left to right
  (`pairAt?_eq_some_iff`, `pairs_eq_iff`);
* `ObjectLiteral.Defines name source es` : the text defines the object with the pairs `es`, at least one of
  them (`defines_iff`).
-/

namespace Constify.ObjectLiteral

variable {name t rest body : Text} {e : Entry} {es : List Entry}

/-! ## The header -/

/-- The text is a header: `const`, blanks, the name, perhaps a type annotation, an equals sign and a brace. -/
def IsHeader (name header : Text) : Prop :=
  ∃ gap gap' type gap'', gap ≠ [] ∧ Blanks gap ∧ Blanks gap' ∧ TypeAnnotation type ∧ Blanks gap'' ∧
    header = "const".toList ++ gap ++ name ++ (gap' ++ (type ++ '=' :: (gap'' ++ ['{'])))

theorem atHeader?_eq_some_iff_isHeader :
    atHeader? name t = some rest ↔ ∃ header, IsHeader name header ∧ t = header ++ rest := by
  rw [atHeader?_eq_some_iff]
  constructor
  · rintro ⟨gap, r, hne, hgap, rfl, hr⟩
    obtain ⟨gap', type, gap'', hgap', htype, hgap'', rfl⟩ := afterName?_eq_some_iff.mp hr
    exact ⟨_, ⟨gap, gap', type, gap'', hne, hgap, hgap', htype, hgap'', rfl⟩, by simp⟩
  · rintro ⟨header, ⟨gap, gap', type, gap'', hne, hgap, hgap', htype, hgap'', rfl⟩, rfl⟩
    refine ⟨gap, gap' ++ (type ++ '=' :: (gap'' ++ '{' :: rest)), hne, hgap, by simp, ?_⟩
    exact afterName?_eq_some_iff.mpr ⟨gap', type, gap'', hgap', htype, hgap'', rfl⟩

theorem not_isHeader_nil : ¬ IsHeader name [] := by
  rintro ⟨gap, gap', type, gap'', -, -, -, -, -, h⟩
  simp at h

/-- A header stands between `front` and `rest` in a text that follows the character `before`, and starts a
word there. -/
def HeaderAt (name : Text) (before : Option Char) (front rest t : Text) : Prop :=
  atBoundary (front.getLast?.or before) = true ∧ ∃ header, IsHeader name header ∧ t = front ++ (header ++ rest)

theorem headerAt_nil_iff {before : Option Char} :
    HeaderAt name before [] rest t ↔ atBoundary before = true ∧ atHeader? name t = some rest := by
  rw [atHeader?_eq_some_iff_isHeader]
  rfl

theorem headerAt_cons_iff {before : Option Char} {c d : Char} {front : Text} :
    HeaderAt name before (d :: front) rest (c :: t) ↔ d = c ∧ HeaderAt name (some d) front rest t := by
  have hbefore : (d :: front).getLast?.or before = front.getLast?.or (some d) := by
    cases front with
    | nil => rfl
    | cons x xs => rw [List.getLast?_cons_cons, List.getLast?_eq_some_getLast (List.cons_ne_nil x xs)]; rfl
  rw [HeaderAt, HeaderAt, hbefore]
  constructor
  · rintro ⟨hboundary, header, hheader, heq⟩
    obtain ⟨rfl, rfl⟩ := List.cons.inj heq
    exact ⟨rfl, hboundary, header, hheader, rfl⟩
  · rintro ⟨rfl, hboundary, header, hheader, rfl⟩
    exact ⟨hboundary, header, hheader, rfl⟩

/-- The object opens in front of `rest`: behind the first header that starts a word. -/
def Opens (name t rest : Text) : Prop :=
  ∃ front, HeaderAt name none front rest t ∧
    ∀ front' rest', HeaderAt name none front' rest' t → front.length ≤ front'.length

theorem openingFrom?_eq_some_iff {before : Option Char} :
    openingFrom? name before t = some rest ↔
      ∃ front, HeaderAt name before front rest t ∧
        ∀ front' rest', HeaderAt name before front' rest' t → front.length ≤ front'.length := by
  induction t generalizing before with
  | nil =>
    refine iff_of_false (by simp [openingFrom?]) ?_
    rintro ⟨front, ⟨-, header, hheader, heq⟩, -⟩
    obtain ⟨-, hnil⟩ := List.append_eq_nil_iff.mp heq.symm
    obtain ⟨rfl, -⟩ := List.append_eq_nil_iff.mp hnil
    exact not_isHeader_nil hheader
  | cons c cs ih =>
    rw [openingFrom?]
    by_cases hfirst : ∃ body, HeaderAt name before [] body (c :: cs)
    · -- the text starts with a header
      obtain ⟨body, hbody⟩ := hfirst
      obtain ⟨hboundary, hheader⟩ := headerAt_nil_iff.mp hbody
      rw [if_pos hboundary, hheader, Option.some_or, Option.some.injEq]
      constructor
      · rintro rfl
        exact ⟨[], hbody, fun _ _ _ => Nat.zero_le _⟩
      · rintro ⟨front, hfront, hleast⟩
        obtain rfl : front = [] := List.eq_nil_of_length_eq_zero (Nat.le_zero.mp (hleast [] body hbody))
        rw [(headerAt_nil_iff.mp hfront).2] at hheader
        exact (Option.some.inj hheader).symm
    · -- every header has the first character in front of it
      have hnone : (if atBoundary before = true then atHeader? name (c :: cs) else none) = none := by
        rw [Option.eq_none_iff_forall_ne_some]
        intro body hbody
        split at hbody
        · next hboundary => exact hfirst ⟨body, headerAt_nil_iff.mpr ⟨hboundary, hbody⟩⟩
        · cases hbody
      have hcons : ∀ front rest', HeaderAt name before front rest' (c :: cs) →
          ∃ front', front = c :: front' ∧ HeaderAt name (some c) front' rest' cs := by
        intro front rest' hfront
        cases front with
        | nil => exact absurd ⟨rest', hfront⟩ hfirst
        | cons d front =>
          obtain ⟨rfl, hcs⟩ := headerAt_cons_iff.mp hfront
          exact ⟨front, rfl, hcs⟩
      rw [hnone, Option.none_or, ih]
      constructor
      · rintro ⟨front, hfront, hleast⟩
        refine ⟨c :: front, headerAt_cons_iff.mpr ⟨rfl, hfront⟩, fun front' rest' hfront' => ?_⟩
        obtain ⟨front'', rfl, hfront''⟩ := hcons front' rest' hfront'
        exact Nat.succ_le_succ (hleast front'' rest' hfront'')
      · rintro ⟨front, hfront, hleast⟩
        obtain ⟨front', rfl, hfront'⟩ := hcons front rest hfront
        refine ⟨front', hfront', fun front'' rest' hfront'' => ?_⟩
        exact Nat.le_of_succ_le_succ (hleast (c :: front'') rest' (headerAt_cons_iff.mpr ⟨rfl, hfront''⟩))

theorem opening?_eq_some_iff : opening? name t = some rest ↔ Opens name t rest := by
  rw [opening?, openingFrom?_eq_some_iff, Opens]

/-! ## The body -/

/-- The text starts with `body` and the brace that closes it: the body has as many closing braces as opening
ones and `inner` more, and no front of it has more than that. -/
def Closes (inner : Nat) (body t : Text) : Prop :=
  body.count '}' = inner + body.count '{' ∧ (∀ a, a <+: body → a.count '}' ≤ inner + a.count '{') ∧
    ∃ rest, t = body ++ '}' :: rest

section

variable {inner : Nat}

theorem forall_prefix_cons_iff {p : Text → Prop} {c : Char} :
    (∀ a, a <+: c :: t → p a) ↔ p [] ∧ ∀ a, a <+: t → p (c :: a) := by
  constructor
  · exact fun h => ⟨h [] List.nil_prefix, fun a ha => h (c :: a) (List.cons_prefix_cons.mpr ⟨rfl, ha⟩)⟩
  · rintro ⟨hnil, hcons⟩ a ha
    rcases List.prefix_cons_iff.mp ha with rfl | ⟨a', rfl, ha'⟩
    · exact hnil
    · exact hcons a' ha'

theorem closes_nil_iff {c : Char} : Closes inner [] (c :: t) ↔ inner = 0 ∧ c = '}' := by
  simp [Closes, eq_comm]

theorem closes_cons_open_iff : Closes inner ('{' :: body) ('{' :: t) ↔ Closes (inner + 1) body t := by
  have hopen : ∀ a : Text, inner + ('{' :: a).count '{' = inner + 1 + a.count '{' := by
    intro a
    rw [List.count_cons_self]
    omega
  have hclose : ∀ a : Text, ('{' :: a).count '}' = a.count '}' := fun a => List.count_cons_of_ne (by decide)
  simp only [Closes, forall_prefix_cons_iff, hopen, hclose, List.count_nil, Nat.zero_le, true_and,
    List.cons_append, List.cons.injEq]

theorem closes_cons_close_iff : Closes (inner + 1) ('}' :: body) ('}' :: t) ↔ Closes inner body t := by
  have hopen : ∀ a : Text, inner + 1 + ('}' :: a).count '{' = inner + a.count '{' + 1 := by
    intro a
    rw [List.count_cons_of_ne (by decide)]
    omega
  simp only [Closes, forall_prefix_cons_iff, hopen, List.count_cons_self, List.count_nil, Nat.zero_le, true_and,
    List.cons_append, List.cons.injEq, Nat.add_right_cancel_iff, Nat.add_le_add_iff_right]

theorem closes_cons_iff {c : Char} (hopen : c ≠ '{') (hclose : c ≠ '}') :
    Closes inner (c :: body) (c :: t) ↔ Closes inner body t := by
  simp only [Closes, forall_prefix_cons_iff, List.count_cons_of_ne hopen, List.count_cons_of_ne hclose,
    List.count_nil, Nat.zero_le, true_and, List.cons_append, List.cons.injEq]

/-- A body whose brace is not the next character starts with that character. -/
theorem exists_closes_iff {next : Nat} {c : Char} (hnil : ¬ (inner = 0 ∧ c = '}'))
    (hcons : ∀ body, Closes inner (c :: body) (c :: t) ↔ Closes next body t) :
    (∃ body', Closes next body' t ∧ c :: body' = body) ↔ Closes inner body (c :: t) := by
  constructor
  · rintro ⟨body', hbody', rfl⟩
    exact (hcons body').mpr hbody'
  · intro hbody
    cases body with
    | nil => exact absurd (closes_nil_iff.mp hbody) hnil
    | cons d body =>
      have hdc : c = d := by
        obtain ⟨-, -, rest, hrest⟩ := hbody
        exact (List.cons.inj hrest).1
      subst hdc
      exact ⟨body, (hcons body).mp hbody, rfl⟩

theorem untilClose?_eq_some_iff : untilClose? inner t = some body ↔ Closes inner body t := by
  induction inner, t using untilClose?.induct generalizing body with
  | case1 inner => simp [untilClose?, Closes]
  | case2 inner cs ih =>
    rw [untilClose?, Option.map_eq_some_iff]
    simp only [ih]
    exact exists_closes_iff (by simp) fun _ => closes_cons_open_iff
  | case3 cs =>
    rw [untilClose?, Option.some.injEq]
    constructor
    · rintro rfl
      exact closes_nil_iff.mpr ⟨rfl, rfl⟩
    · rintro ⟨-, hfronts, rest, hrest⟩
      cases body with
      | nil => rfl
      | cons d body =>
        -- a front of one brace closes more than was opened
        obtain ⟨rfl, -⟩ := List.cons.inj hrest
        have := hfronts ['}'] (List.cons_prefix_cons.mpr ⟨rfl, List.nil_prefix⟩)
        simp at this
  | case4 cs n ih =>
    rw [untilClose?, Option.map_eq_some_iff]
    simp only [ih]
    exact exists_closes_iff (by simp) fun _ => closes_cons_close_iff
  | case5 inner c cs hopen hclose ih =>
    rw [untilClose?, Option.map_eq_some_iff]
    · simp only [ih]
      exact exists_closes_iff (fun h => hclose h.2) fun _ => closes_cons_iff hopen hclose
    · exact hopen
    · exact hclose

end

theorem body?_eq_some_iff : body? name t = some body ↔ ∃ rest, Opens name t rest ∧ Closes 0 body rest := by
  rw [body?, Option.bind_eq_some_iff]
  simp only [opening?_eq_some_iff, untilClose?_eq_some_iff]

/-! ## The pairs -/

/-- The text starts with a pair and goes on with `rest`. -/
def StartsPair (e : Entry) (rest t : Text) : Prop :=
  ∃ p : Place, p.skipped = [] ∧ p.entry = e ∧ t = p.text ++ rest

theorem pairAt?_eq_some_iff : pairAt? t = some (e, rest) ↔ StartsPair e rest t := by
  constructor
  · exact exists_of_pairAt?
  · rintro ⟨p, hskipped, rfl, rfl⟩
    rw [Place.text_append, hskipped, List.nil_append]
    exact pairAt?_written ⟨p.key_valid, p.literal_plain⟩ p.gap_blanks p.gap'_blanks p.opening_quote
      p.closing_quote

/-- The pairs of a text from left to right: no pair starts in front of the first one, and the others are
those of the text behind it. -/
inductive HasPairs : Text → List Entry → Prop
  | nil {t : Text} : (∀ v, v <:+ t → ∀ e rest, ¬ StartsPair e rest v) → HasPairs t []
  | cons {skipped v rest : Text} {e : Entry} {es : List Entry} :
      (∀ w, w <:+ skipped → w ≠ [] → ∀ e' rest', ¬ StartsPair e' rest' (w ++ v)) → StartsPair e rest v →
        HasPairs rest es → HasPairs (skipped ++ v) (e :: es)

theorem pairAt?_eq_none_iff : pairAt? t = none ↔ ∀ e rest, ¬ StartsPair e rest t := by
  rw [Option.eq_none_iff_forall_ne_some]
  simp only [Prod.forall, ne_eq, pairAt?_eq_some_iff]

/-- A character at which no pair starts is passed over. -/
theorem HasPairs.skip {c : Char} (hc : ∀ e rest, ¬ StartsPair e rest (c :: t)) (h : HasPairs t es) :
    HasPairs (c :: t) es := by
  cases h with
  | nil hnone =>
    refine .nil fun v hv => ?_
    rcases List.suffix_cons_iff.mp hv with rfl | hv
    · exact hc
    · exact hnone v hv
  | cons hnone hpair hrest =>
    rw [← List.cons_append]
    refine .cons (fun w hw hne => ?_) hpair hrest
    rcases List.suffix_cons_iff.mp hw with rfl | hw
    · exact hc
    · exact hnone w hw hne

theorem hasPairs_pairs (t : Text) : HasPairs t (pairs t) := by
  induction t using pairs.induct with
  | case1 =>
    rw [pairs]
    refine .nil fun v hv e rest hpair => ?_
    obtain rfl : v = [] := List.suffix_nil.mp hv
    have := pairAt?_eq_some_iff.mpr hpair
    cases this
  | case2 c cs e r hpair _ ih =>
    rw [pairs_of_pairAt? hpair]
    have hread : HasPairs ([] ++ c :: cs) (e :: pairs r) :=
      .cons (fun w hw hne => absurd (List.suffix_nil.mp hw) hne) (pairAt?_eq_some_iff.mp hpair) ih
    exact hread
  | case3 c cs hnone ih =>
    rw [pairs_of_not_pairAt? hnone]
    exact ih.skip (pairAt?_eq_none_iff.mp hnone)

theorem pairs_append {skipped v : Text}
    (h : ∀ w, w <:+ skipped → w ≠ [] → ∀ e rest, ¬ StartsPair e rest (w ++ v)) :
    pairs (skipped ++ v) = pairs v := by
  induction skipped with
  | nil => rfl
  | cons c cs ih =>
    have hnone : pairAt? (c :: (cs ++ v)) = none :=
      pairAt?_eq_none_iff.mpr (h (c :: cs) List.suffix_rfl (List.cons_ne_nil c cs))
    rw [List.cons_append, pairs_of_not_pairAt? hnone,
      ih fun w hw => h w (hw.trans (List.suffix_cons c cs))]

theorem pairs_eq_of_hasPairs (h : HasPairs t es) : pairs t = es := by
  induction h with
  | @nil t hnone =>
    have hskip : pairs (t ++ []) = pairs [] := pairs_append fun w hw _ => by
      rw [List.append_nil]
      exact hnone w hw
    rw [List.append_nil] at hskip
    rw [hskip, pairs]
  | @cons skipped v rest e es hnone hpair _ ih =>
    have hv := pairAt?_eq_some_iff.mpr hpair
    rw [pairs_append hnone]
    cases v with
    | nil => cases hv
    | cons c cs => rw [pairs_of_pairAt? hv, ih]

theorem pairs_eq_iff : pairs t = es ↔ HasPairs t es :=
  ⟨fun h => h ▸ hasPairs_pairs t, pairs_eq_of_hasPairs⟩

/-! ## The object -/

/-- The text defines the object with the pairs `es`, of which there is at least one: the object is found and
closed, and these are the pairs of its body. -/
def Defines (name source : Text) (es : List Entry) : Prop :=
  es ≠ [] ∧ ∃ rest body, Opens name source rest ∧ Closes 0 body rest ∧ HasPairs body es

theorem defines_iff {source : Text} :
    Defines name source es ↔ es ≠ [] ∧ ∃ body, body? name source = some body ∧ pairs body = es := by
  simp only [Defines, body?_eq_some_iff, pairs_eq_iff]
  refine and_congr_right fun _ => ⟨?_, ?_⟩
  · rintro ⟨rest, body, hopens, hcloses, hpairs⟩
    exact ⟨body, ⟨rest, hopens, hcloses⟩, hpairs⟩
  · rintro ⟨body, ⟨rest, hopens, hcloses⟩, hpairs⟩
    exact ⟨rest, body, hopens, hcloses, hpairs⟩

end Constify.ObjectLiteral
