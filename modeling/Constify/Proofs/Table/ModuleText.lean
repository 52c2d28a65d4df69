import Constify.Proofs.Table.Header

/-!
# Reading a written table back

* `ObjectLiteral.WritesPair`, `ObjectLiteral.WritesPairs` : the texts that list entries as `key: "value"`;
* `ModuleText` : a module's text that defines an object with the entries, in any layout;
* `ObjectLiteral.pairs_of_writes` : the pairs of such a list are the entries;
* `ModuleText.opening?_eq` : the header of the object is the first one that is found;
* `Table.ofModule?_text` : reading such a module gives the table back.
-/

namespace Constify

namespace ObjectLiteral

/-! ## Written pairs -/

/-- The text is the entry as `key: "value"`, in quotes of either kind, with blanks around each part. -/
def WritesPair (e : Entry) (t : Text) : Prop :=
  ∃ a b c d q, Blanks a ∧ Blanks b ∧ Blanks c ∧ Blanks d ∧ isQuote q = true ∧
    t = a ++ (e.key ++ (b ++ ':' :: (c ++ q :: (e.literal ++ q :: d))))

/-- The text lists the entries in order, with a comma between two of them and perhaps one after the
last. -/
inductive WritesPairs : List Entry → Text → Prop
  | last {e : Entry} {t : Text} : WritesPair e t → WritesPairs [e] t
  | lastComma {e : Entry} {t g : Text} : WritesPair e t → Blanks g → WritesPairs [e] (t ++ ',' :: g)
  | cons {e : Entry} {es : List Entry} {t r : Text} :
      WritesPair e t → WritesPairs es r → WritesPairs (e :: es) (t ++ ',' :: r)

/-- The entry can be read back from its written form: the key is an identifier and the literal holds
nothing that ends a value. -/
structure Plain (e : Entry) : Prop where
  key : isIdentifier e.key = true
  literal : ∀ c ∈ e.literal, isValueChar c = true

variable {e : Entry} {t : Text}

/-- The quote behind a value may be of either kind. -/
theorem valueAt?_quoted {v r : Text} {q q' : Char} (hq : isQuote q = true) (hq' : isQuote q' = true)
    (hv : ∀ c ∈ v, isValueChar c = true) : valueAt? (q :: (v ++ q' :: r)) = some (v, r) := by
  have hend : isValueChar q' = false := by simp [isValueChar, hq']
  rw [valueAt?, if_pos hq, List.dropWhile_append_of_pos hv, List.dropWhile_cons_of_neg (by simp [hend]),
    List.takeWhile_append_of_pos hv, List.takeWhile_cons_of_neg (by simp [hend]), List.append_nil]
  exact if_pos hq'

/-- What follows the blanks after an identifier is no identifier character. -/
theorem span_isIdentChar {ks b r : Text} {c : Char} (hks : ∀ d ∈ ks, isIdentChar d = true)
    (hb : Blanks b) (hc : isIdentChar c = false) :
    (ks ++ (b ++ c :: r)).dropWhile isIdentChar = b ++ c :: r ∧
      identRun (ks ++ (b ++ c :: r)) = ks := by
  have hstop : ∀ d ∈ (b ++ c :: r).head?, ¬ isIdentChar d = true := by
    cases b with
    | nil => simpa using hc
    | cons d ds => simpa using isIdentChar_of_isBlank (blanks_cons.mp hb).1
  obtain ⟨d, ds, hd⟩ := List.exists_cons_of_ne_nil (show b ++ c :: r ≠ [] by simp)
  rw [hd] at hstop ⊢
  have hstop := hstop d rfl
  rw [identRun, List.dropWhile_append_of_pos hks, List.dropWhile_cons_of_neg hstop,
    List.takeWhile_append_of_pos hks, List.takeWhile_cons_of_neg hstop, List.append_nil]
  exact ⟨rfl, rfl⟩

theorem pairAt?_written (he : Plain e) {b c r : Text} {q q' : Char} (hb : Blanks b) (hc : Blanks c)
    (hq : isQuote q = true) (hq' : isQuote q' = true) :
    pairAt? (e.key ++ (b ++ ':' :: (c ++ q :: (e.literal ++ q' :: r)))) = some (e, r) := by
  obtain ⟨k, ks, hkey, hk, hks⟩ := exists_cons_of_isIdentifier he.key
  obtain ⟨hdrop, hrun⟩ := span_isIdentChar (r := c ++ q :: (e.literal ++ q' :: r)) hks hb
    (by decide : isIdentChar ':' = false)
  have hvalue : valueAt? (Text.trimStart (c ++ q :: (e.literal ++ q' :: r))) = some (e.literal, r) := by
    rw [Text.trimStart_append_cons hc (isBlank_of_isQuote hq), valueAt?_quoted hq hq' he.literal]
  rw [hkey, List.cons_append, pairAt?, if_pos hk, hdrop, hrun, Text.trimStart_append_cons hb (by decide)]
  simp only [hvalue, Option.map_some, ← hkey]

theorem pairs_of_pairAt? {c : Char} {cs r : Text} (h : pairAt? (c :: cs) = some (e, r)) :
    pairs (c :: cs) = e :: pairs r := by
  rw [pairs]
  split
  · next e' r' h' =>
    rw [h] at h'
    cases h'
    rfl
  · next h' => rw [h] at h'; cases h'

theorem pairs_of_not_pairAt? {c : Char} {cs : Text} (h : pairAt? (c :: cs) = none) :
    pairs (c :: cs) = pairs cs := by
  rw [pairs]
  split
  · next h' => rw [h] at h'; cases h'
  · rfl

theorem pairs_cons_of_not_start {c : Char} (h : isIdentStart c = false) (cs : Text) :
    pairs (c :: cs) = pairs cs :=
  pairs_of_not_pairAt? (by rw [pairAt?, if_neg (by simp [h])])

theorem pairs_append_of_blanks {g : Text} (hg : Blanks g) (t : Text) : pairs (g ++ t) = pairs t := by
  induction g with
  | nil => rfl
  | cons c cs ih =>
    obtain ⟨hc, hcs⟩ := blanks_cons.mp hg
    rw [List.cons_append, pairs_cons_of_not_start (isIdentStart_of_isBlank hc), ih hcs]

theorem pairs_append_of_writesPair (he : Plain e) (h : WritesPair e t) (r : Text) :
    pairs (t ++ r) = e :: pairs r := by
  obtain ⟨a, b, c, d, q, ha, hb, hc, hd, hq, rfl⟩ := h
  have hpair := pairAt?_written he (r := d ++ r) hb hc hq hq
  obtain ⟨k, ks, hks, -, -⟩ := exists_cons_of_isIdentifier he.key
  simp only [List.append_assoc, List.cons_append]
  rw [pairs_append_of_blanks ha]
  rw [hks] at hpair ⊢
  rw [List.cons_append] at hpair ⊢
  rw [pairs_of_pairAt? hpair, pairs_append_of_blanks hd]

theorem pairs_of_writes {es : List Entry} (h : WritesPairs es t) (hes : ∀ e ∈ es, Plain e) :
    pairs t = es := by
  have hcomma : isIdentStart ',' = false := by decide
  have hnil : pairs [] = [] := by rw [pairs]
  induction h with
  | last hp =>
    have := pairs_append_of_writesPair (hes _ (by simp)) hp []
    rwa [List.append_nil, hnil] at this
  | lastComma hp hg =>
    have hrest := pairs_append_of_blanks hg []
    rw [List.append_nil, hnil] at hrest
    rw [pairs_append_of_writesPair (hes _ (by simp)) hp, pairs_cons_of_not_start hcomma, hrest]
  | cons hp _ ih =>
    rw [pairs_append_of_writesPair (hes _ (by simp)) hp, pairs_cons_of_not_start hcomma,
      ih fun e he => hes e (List.mem_cons_of_mem _ he)]

theorem not_mem_of_writesPair {c : Char} (he : Plain e) (h : WritesPair e t) (hblank : isBlank c = false)
    (hident : isIdentChar c = false) (hquote : isQuote c = false) (hcolon : c ≠ ':')
    (hlit : c ∉ e.literal) : c ∉ t := by
  obtain ⟨a, b, g, d, q, ha, hb, hg, hd, hq, rfl⟩ := h
  have hne : c ≠ q := by
    rintro rfl
    rw [hq] at hquote
    cases hquote
  have hkey : c ∉ e.key := by
    intro hmem
    rw [isIdentChar_of_mem he.key hmem] at hident
    cases hident
  simp only [List.mem_append, List.mem_cons, not_or]
  exact ⟨ha.not_mem hblank, hkey, hb.not_mem hblank, hcolon, hg.not_mem hblank, hne, hlit, hne,
    hd.not_mem hblank⟩

theorem not_mem_of_writes {es : List Entry} {c : Char} (h : WritesPairs es t) (hes : ∀ e ∈ es, Plain e)
    (hblank : isBlank c = false) (hident : isIdentChar c = false) (hquote : isQuote c = false)
    (hcolon : c ≠ ':') (hcomma : c ≠ ',') (hlit : ∀ e ∈ es, c ∉ e.literal) : c ∉ t := by
  have hpair : ∀ {e t}, e ∈ es → WritesPair e t → c ∉ t := fun he hp =>
    not_mem_of_writesPair (hes _ he) hp hblank hident hquote hcolon (hlit _ he)
  induction h with
  | last hp => exact hpair (by simp) hp
  | lastComma hp hg =>
    rw [List.mem_append, List.mem_cons, not_or, not_or]
    exact ⟨hpair (by simp) hp, hcomma, hg.not_mem hblank⟩
  | cons hp _ ih =>
    rw [List.mem_append, List.mem_cons, not_or, not_or]
    refine ⟨hpair (by simp) hp, hcomma, ih (fun e he => hes e ?_) (fun e he => hlit e ?_) fun he => hpair ?_⟩
    all_goals exact List.mem_cons_of_mem _ he

/-! ## The body -/

theorem untilClose?_append {body : Text} (hopen : '{' ∉ body) (hclose : '}' ∉ body) (r : Text) :
    untilClose? 0 (body ++ '}' :: r) = some body := by
  induction body with
  | nil => rw [List.nil_append, untilClose?]
  | cons c cs ih =>
    rw [List.mem_cons, not_or] at hopen hclose
    rw [List.cons_append, untilClose?, ih hopen.2 hclose.2, Option.map_some]
    · rintro rfl
      exact hopen.1 rfl
    · rintro rfl
      exact hclose.1 rfl

/-! ## The header -/

theorem exists_blanks_of_append_eq {name gap s r : Text} (hname : isIdentifier name = true)
    (hgap : Blanks gap) (hs : s ≠ []) (hlast : ∀ c ∈ s.getLast?, isBlank c = true)
    (h : "const".toList ++ gap ++ name = s ++ r) : ∃ g, Blanks g ∧ r = g ++ name := by
  rcases List.append_eq_append_iff.mp h with ⟨v, rfl, hv⟩ | ⟨v, hv, rfl⟩
  · -- the front reaches into the name, which holds no blank
    rcases List.eq_nil_or_concat v with rfl | ⟨xs, x, rfl⟩
    · exact ⟨[], blanks_nil, by simpa using hv.symm⟩
    · rw [List.concat_eq_append] at hv hlast
      have hblank := hlast x (by rw [← List.append_assoc, List.getLast?_concat]; rfl)
      rw [isBlank_of_isIdentChar (isIdentChar_of_mem hname (by simp [hv]))] at hblank
      cases hblank
  · rcases List.append_eq_append_iff.mp hv with ⟨x, rfl, rfl⟩ | ⟨x, hx, rfl⟩
    · exact ⟨v, fun c hc => hgap c (List.mem_append_right _ hc), rfl⟩
    · -- the front ends in `const`, which holds no blank
      have hconst : ∀ c ∈ "const".toList, ¬ isBlank c = true := by decide
      refine absurd (hlast _ (List.getLast?_eq_some_getLast hs)) (hconst _ ?_)
      rw [hx]
      exact List.mem_append_left _ (List.getLast_mem hs)

/-- What follows a name at the front of a word, blanks and one more word is no header. -/
theorem afterName?_of_words {name w g u r : Text} {c d : Char} (hname : isIdentifier name = true)
    (hw : isIdentifier w = true) (hd : isBlank d = true) (hg : Blanks g) (hc : isIdentChar c = true)
    (h : w ++ d :: (g ++ c :: u) = name ++ r) : afterName? r = none := by
  rcases List.append_eq_append_iff.mp h with ⟨v, hv, hr⟩ | ⟨v, hv, rfl⟩
  · cases v with
    | nil =>
      rw [List.nil_append] at hr
      rw [← hr]
      exact afterName?_of_ident (g := d :: g) (blanks_cons.mpr ⟨hd, hg⟩) hc
    | cons x xs =>
      obtain ⟨rfl, -⟩ := List.cons.inj hr
      have hmem : d ∈ name := by simp [hv]
      rw [isBlank_of_isIdentChar (isIdentChar_of_mem hname hmem)] at hd
      cases hd
  · cases v with
    | nil => exact afterName?_of_ident (g := d :: g) (blanks_cons.mpr ⟨hd, hg⟩) hc
    | cons x xs =>
      exact afterName?_of_ident (g := []) blanks_nil (isIdentChar_of_mem hw (by simp [hv]))

def StartsWithWords (t : Text) : Prop :=
  ∃ w d g c u, isIdentifier w = true ∧ isBlank d = true ∧ Blanks g ∧ isIdentChar c = true ∧
    t = w ++ d :: (g ++ c :: u)

/-- No header starts in a text that ends with a blank and reaches over its end, if two words follow. -/
theorem atHeader?_eq_none {name s : Text} (hname : isIdentifier name = true) (hs : s ≠ [])
    (hlast : ∀ c ∈ s.getLast?, isBlank c = true)
    (hfree : ∀ gap, gap ≠ [] → Blanks gap → ¬ "const".toList ++ gap ++ name <:+: s)
    (ht : StartsWithWords t) : atHeader? name (s ++ t) = none := by
  obtain ⟨w, d, g, c, u, hw, hd, hg, hc, rfl⟩ := ht
  cases h : atHeader? name (s ++ (w ++ d :: (g ++ c :: u))) with
  | none => rfl
  | some body =>
    obtain ⟨gap, r, hne, hgap, heq, hr⟩ := atHeader?_eq_some_iff.mp h
    rcases List.append_eq_append_iff.mp heq with ⟨v, hv, hrest⟩ | ⟨v, rfl, -⟩
    · obtain ⟨y, hy, rfl⟩ := exists_blanks_of_append_eq hname hgap hs hlast hv
      cases y with
      | nil =>
        rw [afterName?_of_words hname hw hd hg hc hrest] at hr
        cases hr
      | cons x xs =>
        obtain ⟨z, zs, rfl, hz, -⟩ := exists_cons_of_isIdentifier hw
        obtain ⟨rfl, -⟩ := List.cons.inj hrest
        have hblank := (blanks_cons.mp hy).1
        rw [isBlank_of_isIdentChar (isIdentChar_of_isIdentStart hz)] at hblank
        cases hblank
    · exact absurd ⟨[], v, by simp⟩ (hfree gap hne hgap)

theorem openingFrom?_append {name s : Text} {before : Option Char}
    (h : ∀ v, v ≠ [] → v <:+ s → atHeader? name (v ++ t) = none) :
    openingFrom? name before (s ++ t) = openingFrom? name (s.getLast?.or before) t := by
  induction s generalizing before with
  | nil => rfl
  | cons c cs ih =>
    have hnone : atHeader? name (c :: (cs ++ t)) = none := h (c :: cs) (by simp) List.suffix_rfl
    rw [List.cons_append, openingFrom?, hnone, ite_self, Option.none_or,
      ih fun v hv hsuffix => h v hv (hsuffix.trans (List.suffix_cons c cs))]
    cases cs with
    | nil => rfl
    | cons d ds => simp [List.getLast?_cons]

/-- The search passes over a text that ends with a blank and defines no constant of the name. -/
theorem openingFrom?_append_of_free {name s : Text} {before : Option Char}
    (hname : isIdentifier name = true) (hlast : ∀ c ∈ s.getLast?, isBlank c = true)
    (hfree : ∀ gap, gap ≠ [] → Blanks gap → ¬ "const".toList ++ gap ++ name <:+: s)
    (ht : StartsWithWords t) :
    openingFrom? name before (s ++ t) = openingFrom? name (s.getLast?.or before) t := by
  refine openingFrom?_append fun v hv hsuffix => atHeader?_eq_none hname hv ?_ ?_ ht
  · obtain ⟨x, rfl⟩ := hsuffix
    rwa [List.getLast?_append_of_ne_nil x hv] at hlast
  · exact fun gap hne hgap hin => hfree gap hne hgap (hin.trans hsuffix.isInfix)

end ObjectLiteral

/-! ## A module's text -/

/-- A module's text that defines an object with these entries: any text, then
`export const NAME: Type = {`, the list of the entries, `}` and any text. `export` and the type may be
missing; the text before ends with a blank unless it is empty, and defines no such constant. -/
structure ModuleText (name : Text) (entries : List Entry) where
  before : Text
  isExported : Bool
  afterConst : Text
  afterName : Text
  type? : Option Text
  afterEquals : Text
  body : Text
  rest : Text
  before_last : ∀ c ∈ before.getLast?, isBlank c = true
  before_free : ∀ gap, gap ≠ [] → Blanks gap → ¬ "const".toList ++ gap ++ name <:+: before
  afterConst_ne_nil : afterConst ≠ []
  afterConst_blanks : Blanks afterConst
  afterName_blanks : Blanks afterName
  type_plain : ∀ type ∈ type?, '=' ∉ type
  afterEquals_blanks : Blanks afterEquals
  body_writes : ObjectLiteral.WritesPairs entries body

namespace ModuleText

open ObjectLiteral

variable {name : Text} {entries : List Entry} (m : ModuleText name entries)

def fromBody : Text := m.body ++ '}' :: m.rest

def fromName : Text :=
  m.afterName ++ ((m.type?.map (':' :: ·)).getD [] ++ '=' :: (m.afterEquals ++ '{' :: m.fromBody))

def definition : Text := "const".toList ++ (m.afterConst ++ (name ++ m.fromName))

def text : Text := m.before ++ ((if m.isExported then "export ".toList else []) ++ m.definition)

theorem afterName?_fromName : afterName? m.fromName = some m.fromBody := by
  refine afterName?_eq_some_iff.mpr ⟨m.afterName, (m.type?.map (':' :: ·)).getD [], m.afterEquals,
    m.afterName_blanks, ?_, m.afterEquals_blanks, rfl⟩
  cases htype : m.type? with
  | none => exact Or.inl rfl
  | some type => exact Or.inr ⟨type, rfl, m.type_plain type htype⟩

theorem atHeader?_definition : atHeader? name m.definition = some m.fromBody :=
  atHeader?_eq_some_iff.mpr ⟨m.afterConst, m.fromName, m.afterConst_ne_nil, m.afterConst_blanks,
    by simp [definition], m.afterName?_fromName⟩

theorem openingFrom?_definition {before : Option Char} (hbefore : ∀ c ∈ before, isBlank c = true) :
    openingFrom? name before m.definition = some m.fromBody := by
  have hboundary : atBoundary before = true := by
    cases before with
    | none => rfl
    | some c => simp [atBoundary, isWord_of_isBlank (hbefore c rfl)]
  have hcons : m.definition = 'c' :: m.definition.tail := rfl
  rw [hcons, openingFrom?, if_pos hboundary, ← hcons, m.atHeader?_definition, Option.some_or]

theorem startsWithWords_definition (hname : isIdentifier name = true) :
    StartsWithWords m.definition := by
  obtain ⟨d, ds, hd⟩ := List.exists_cons_of_ne_nil m.afterConst_ne_nil
  obtain ⟨n, ns, hn, hstart, -⟩ := exists_cons_of_isIdentifier hname
  obtain ⟨hdblank, hds⟩ := blanks_cons.mp (hd ▸ m.afterConst_blanks)
  have hfrom : name ++ m.fromName = n :: (ns ++ m.fromName) := congrArg (· ++ m.fromName) hn
  refine ⟨"const".toList, d, ds, n, ns ++ m.fromName, by decide, hdblank, hds,
    isIdentChar_of_isIdentStart hstart, ?_⟩
  unfold definition
  rw [hd, hfrom]
  rfl

/-- The header of the object is the first one that is found. -/
theorem opening?_eq (hname : isIdentifier name = true) : opening? name m.text = some m.fromBody := by
  have hwords := m.startsWithWords_definition hname
  rw [opening?, text]
  cases m.isExported with
  | false =>
    rw [if_neg (by decide), List.nil_append,
      openingFrom?_append_of_free hname m.before_last m.before_free hwords, Option.or_none]
    exact m.openingFrom?_definition m.before_last
  | true =>
    have hexport : StartsWithWords ("export ".toList ++ m.definition) :=
      ⟨"export".toList, ' ', [], 'c', m.definition.tail, by decide, by decide, blanks_nil, by decide, rfl⟩
    have hfree : ∀ gap, gap ≠ [] → Blanks gap → ¬ "const".toList ++ gap ++ name <:+: "export ".toList := by
      intro gap _ _ hin
      have hconst : "const".toList <:+: "export ".toList :=
        ((List.prefix_append _ _).trans (List.prefix_append _ _)).isInfix.trans hin
      exact absurd hconst (by decide)
    have hlast : "export ".toList.getLast? = some ' ' := rfl
    rw [if_pos rfl, openingFrom?_append_of_free hname m.before_last m.before_free hexport,
      openingFrom?_append_of_free hname (by decide) hfree hwords, hlast, Option.some_or]
    exact m.openingFrom?_definition (by decide)

end ModuleText

namespace Table

open ObjectLiteral

/-- An entry of a table can be read back if its literal holds no single quote: the other characters that
end a value are in no literal of a table. -/
theorem plain_of_mem (t : Table) {e : Entry} (he : e ∈ t.entries) (hquote : '\'' ∉ e.literal) : Plain e where
  key := t.key_valid he
  literal c hc := by
    have hvalid := t.literal_valid he
    rw [isQuotable, Bool.and_eq_true, List.all_eq_true] at hvalid
    have hchar := hvalid.2 c hc
    have hne : c ≠ '\'' := by
      rintro rfl
      exact hquote hc
    simp only [Bool.and_eq_true, bne_iff_ne] at hchar
    simp [isValueChar, isQuote, hchar, hne]

theorem ofEntries_entries (t : Table) : ofEntries t.identifier t.entries = .ok t := by
  have hnone : t.entries.findSome? Entry.fault? = none := List.findSome?_eq_none_iff.mpr t.entries_valid
  rw [ofEntries, dif_pos t.identifier_valid, dif_neg t.entries_ne_nil]
  split
  · next fault hfault =>
    rw [hnone] at hfault
    cases hfault
  · rfl

/-- **Reading a table undoes writing it.** A module that defines the table as an object, in any layout and
with any text around it, gives the table back, if no literal holds a single quote or a brace. -/
theorem ofModule?_text (t : Table) (m : ModuleText t.identifier t.entries)
    (hquote : ∀ e ∈ t.entries, '\'' ∉ e.literal)
    (hbrace : ∀ e ∈ t.entries, '{' ∉ e.literal ∧ '}' ∉ e.literal) :
    ofModule? t.identifier m.text = .ok (some t) := by
  have hplain : ∀ e ∈ t.entries, Plain e := fun e he => t.plain_of_mem he (hquote e he)
  have hbody : body? t.identifier m.text = some m.body := by
    rw [body?, m.opening?_eq t.identifier_valid, Option.bind_some, ModuleText.fromBody]
    refine untilClose?_append ?_ ?_ m.rest
    · exact not_mem_of_writes m.body_writes hplain (by decide) (by decide) (by decide) (by decide)
        (by decide) fun e he => (hbrace e he).1
    · exact not_mem_of_writes m.body_writes hplain (by decide) (by decide) (by decide) (by decide)
        (by decide) fun e he => (hbrace e he).2
  rw [ofModule?, hbody, Option.map_some, Option.getD_some, pairs_of_writes m.body_writes hplain]
  split
  · next hnil => exact absurd hnil t.entries_ne_nil
  · rw [t.ofEntries_entries]
    rfl

/-- A table with a literal that looks like a header and pairs. -/
def labelTable : Table where
  identifier := "TAGS".toList
  entries := [⟨"sweet".toList, "const TAGS = a: b, c".toList⟩, ⟨"$1".toList, "x".toList⟩]
  identifier_valid := by decide
  entries_ne_nil := by decide
  entries_valid := by decide

theorem writesPairs_labelTable :
    WritesPairs labelTable.entries " sweet: \"const TAGS = a: b, c\",\n$1 :'x', ".toList :=
  .cons (t := " sweet: \"const TAGS = a: b, c\"".toList)
    ⟨[' '], [], [' '], [], '"', by decide, by decide, by decide, by decide, by decide, by decide⟩
    (.lastComma (t := "\n$1 :'x'".toList) (g := [' '])
      ⟨['\n'], [' '], [], [], '\'', by decide, by decide, by decide, by decide, by decide, by decide⟩
      (by decide))

/-- The table as `const B = 0;\nexport const TAGS : A<B> = { sweet: "...",\n$1 :'x', } as const`. -/
def labelModule : ModuleText labelTable.identifier labelTable.entries where
  before := "const B = 0;\n".toList
  isExported := true
  afterConst := [' ']
  afterName := [' ']
  type? := some " A<B> ".toList
  afterEquals := [' ']
  body := " sweet: \"const TAGS = a: b, c\",\n$1 :'x', ".toList
  rest := " as const".toList
  before_last := by decide
  before_free gap _ _ hin :=
    absurd ((List.suffix_append _ _).isInfix.trans hin) (by decide : ¬ "TAGS".toList <:+: _)
  afterConst_ne_nil := by decide
  afterConst_blanks := blanks_space
  afterName_blanks := blanks_space
  type_plain := by decide
  afterEquals_blanks := blanks_space
  body_writes := writesPairs_labelTable

theorem ofModule?_text_labelModule :
    (∀ e ∈ labelTable.entries, '\'' ∉ e.literal) ∧
      (∀ e ∈ labelTable.entries, '{' ∉ e.literal ∧ '}' ∉ e.literal) ∧
        ofModule? labelTable.identifier labelModule.text = .ok (some labelTable) :=
  ⟨by decide, by decide, ofModule?_text labelTable labelModule (by decide) (by decide)⟩

end Table

end Constify
