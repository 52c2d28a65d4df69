import Constify.Proofs.Import.Insertion
import Constify.Proofs.Import.Scan
import Constify.Revision

/-!
# Substitutions keep the lines of declarations

* `Text.prefix_replaceAll_iff` : what stands at the front of a text, through a replacement that cannot
  start there;
* `Declaration.extent`, `Declaration.extent_ofLines_map` : the first and last line of a declaration, read
  off which lines start one and off their balances of braces;
* `Substitution.applyAll_invariant` : what each substitution keeps, all of them keep;
* `Table.Braceless`, `Table.isStart_lift`, `Table.braceBalance_lift` : the substitutions of a table whose
  literals hold no braces keep both;
* `Table.extents_lift` : so the declarations stand on the same lines, and an import goes below the same
  line as before.
-/

namespace Constify

/-! ## The front of a text -/

theorem Text.prefix_replaceAll_iff {p q w : Text} (hp : p ≠ []) (hq : q ≠ [])
    (hpw : ∀ c ∈ p.head?, c ∉ w) (hqw : ∀ c ∈ q.head?, c ∉ w) (t : Text) :
    w <+: replaceAll p q t ↔ w <+: t := by
  -- a text that starts with none of the characters of `w` has no front of it but the empty one
  have hfront : ∀ {u : Text}, u ≠ [] → ∀ {v : Text}, (∀ c ∈ u.head?, c ∉ v) → ∀ r,
      v <+: u ++ r ↔ v = [] := by
    intro u hu v huv r
    obtain ⟨c, cs, rfl⟩ := List.exists_cons_of_ne_nil hu
    cases v with
    | nil => simp
    | cons d v =>
      refine iff_of_false (fun h => ?_) (List.cons_ne_nil d v)
      obtain ⟨rfl, -⟩ := List.cons_prefix_cons.mp h
      exact huv d rfl (List.mem_cons_self ..)
  induction t using gaps_induction hp generalizing w with
  | nil => rw [replaceAll_nil]
  | found r _ => rw [replaceAll_append_self hp, hfront hp hpw, hfront hq hqw]
  | passed c cs hc ih =>
    rw [replaceAll_cons hc]
    cases w with
    | nil => simp
    | cons d w =>
      rw [List.cons_prefix_cons, List.cons_prefix_cons]
      exact and_congr_right fun _ => ih (fun c hc h => hpw c hc (List.mem_cons_of_mem _ h))
        fun c hc h => hqw c hc (List.mem_cons_of_mem _ h)

/-! ## The lines of declarations -/

namespace Declaration

/-- The first and the last line of a declaration. -/
def extent (d : Declaration) : Nat × Nat := (d.first, d.last)

@[simp] theorem extent_ofText (first last : Nat) (t : Text) :
    (ofText first last t).extent = (first, last) := by
  rw [extent, first_ofText, last_ofText]

section

variable {f : Text → Text} (hbalance : ∀ line, braceBalance (f line) = braceBalance line)

include hbalance

theorem linesToClose?_map (depth : Int) (lines : List Text) :
    linesToClose? depth (lines.map f) = linesToClose? depth lines := by
  induction lines generalizing depth with
  | nil => rfl
  | cons line lines ih => rw [List.map_cons, linesToClose?, linesToClose?, hbalance, ih]

theorem extraLines_map (line : Text) (following : List Text) :
    extraLines (f line) (following.map f) = extraLines line following := by
  rw [extraLines, extraLines, hbalance, linesToClose?_map hbalance]

/-- Where declarations stand depends on which lines start one, and on the balance of each line. -/
theorem extent_ofLines_map (hstart : ∀ line, isStart (f line) = isStart line) (n : Nat)
    (lines : List Text) :
    (ofLines n (lines.map f)).map extent = (ofLines n lines).map extent := by
  induction n, lines using ofLines.induct with
  | case1 n => rw [List.map_nil]
  | case2 n line lines hline extra ih =>
    have hline' : isStart (f line) = true := by rw [hstart, hline]
    rw [List.map_cons, ofLines_cons hline', ofLines_cons hline, extraLines_map hbalance,
      List.map_cons, List.map_cons, extent_ofText, extent_ofText, ← List.map_drop]
    exact congrArg _ ih
  | case3 n line lines hline ih =>
    have hline : isStart line = false := by simpa using hline
    have hline' : isStart (f line) = false := by rw [hstart, hline]
    rw [List.map_cons, ofLines_cons_of_not_start hline', ofLines_cons_of_not_start hline, ih]

end

end Declaration

/-! ## Substitutions -/

theorem Substitution.applyAll_invariant {α : Type} {ss : List Substitution} (g : Text → α)
    (h : ∀ s ∈ ss, ∀ content, g (s.apply content) = g content) (content : Text) :
    g (applyAll ss content).content = g content := by
  induction ss generalizing content with
  | nil => rfl
  | cons s ss ih =>
    exact (ih (fun r hr => h r (List.mem_cons_of_mem _ hr)) _).trans (h s (List.mem_cons_self ..) content)

namespace Table

/-- No literal of the table holds a brace. -/
def Braceless (t : Table) : Prop := ∀ e ∈ t.entries, '{' ∉ e.literal ∧ '}' ∉ e.literal

theorem braceless_of_ofNames {name : Text} {names : List Text} {t : Table}
    (h : ofNames name names = .ok t) : t.Braceless := by
  intro e he
  have hkey := t.key_valid he
  have hmem := he
  rw [(identifier_of_ofEntries h).2] at hmem
  obtain ⟨text, -, rfl⟩ := List.mem_map.mp hmem
  exact ⟨fun hbrace => absurd (isIdentChar_of_mem hkey hbrace) (by decide),
    fun hbrace => absurd (isIdentChar_of_mem hkey hbrace) (by decide)⟩

variable {t : Table} {s : Substitution}

/-- Patterns and replacements start with a character that stands in no `import`. -/
theorem isStart_apply (hs : s ∈ t.substitutions) (content : Text) :
    Declaration.isStart (s.apply content) = Declaration.isStart content := by
  obtain ⟨m, r, hp, hr, -, -⟩ := t.exists_shape hs
  have hhead : ∀ u : Text, ∀ c ∈ (s.context.wrap u).head?, c ∉ "import ".toList := by
    intro u c hc
    rw [Context.wrap_eq, List.append_assoc] at hc
    cases hcontext : s.context <;> rw [hcontext] at hc <;> obtain rfl := Option.some.inj hc <;> decide
  rw [Bool.eq_iff_iff, Declaration.isStart, Declaration.isStart, List.isPrefixOf_iff_prefix,
    List.isPrefixOf_iff_prefix]
  exact Text.prefix_replaceAll_iff (pattern_ne_nil hs) (replacement_ne_nil hs) (hp ▸ hhead _)
    (hr ▸ hhead _) content

theorem isStart_lift (t : Table) (line : Text) :
    Declaration.isStart (t.lift line).content = Declaration.isStart line :=
  Substitution.applyAll_invariant _ (fun _ hs => isStart_apply hs) line

theorem count_apply {c : Char} (hp : c ∉ s.pattern) (hr : c ∉ s.replacement) (hne : s.pattern ≠ [])
    (content : Text) : (s.apply content).count c = content.count c := by
  have hcount := Text.count_replaceAll hne s.replacement content c
  rwa [List.count_eq_zero.mpr hp, List.count_eq_zero.mpr hr] at hcount

theorem braceBalance_lift (ht : t.Braceless) (line : Text) :
    Declaration.braceBalance (t.lift line).content = Declaration.braceBalance line := by
  refine Substitution.applyAll_invariant _ (fun s hs content => ?_) line
  have hopen : (s.apply content).count '{' = content.count '{' :=
    count_apply (not_mem_pattern hs (by decide) (fun d => by cases d <;> decide)
        fun e he => (ht e he).1)
      (not_mem_replacement hs (by decide) fun d => by cases d <;> decide) (pattern_ne_nil hs) content
  have hclose : (s.apply content).count '}' = content.count '}' :=
    count_apply (not_mem_pattern hs (by decide) (fun d => by cases d <;> decide)
        fun e he => (ht e he).2)
      (not_mem_replacement hs (by decide) fun d => by cases d <;> decide) (pattern_ne_nil hs) content
  rw [Declaration.braceBalance, Declaration.braceBalance, hopen, hclose]

theorem extent_declarations_lift (ht : t.Braceless) (content : Text) :
    (declarations (t.lift content).content).map Declaration.extent =
      (declarations content).map Declaration.extent := by
  rw [declarations, declarations, splitOn_lift]
  exact Declaration.extent_ofLines_map (braceBalance_lift ht) t.isStart_lift 0 _

end Table

/-! ## The line of the import -/

theorem statementLine_congr {a b : Text}
    (h : (declarations a).map Declaration.extent = (declarations b).map Declaration.extent) :
    statementLine a = statementLine b := by
  unfold statementLine
  cases ha : declarations a with
  | nil =>
    rw [ha, List.map_nil] at h
    rw [List.map_eq_nil_iff.mp h.symm]
  | cons d ds =>
    rw [ha, List.map_cons] at h
    obtain ⟨e, es, hb, hde, -⟩ := List.map_eq_cons_iff.mp h.symm
    rw [hb]
    exact congrArg (·.2 + 1) hde.symm

theorem Lifter.after_of_importAdded {l : Lifter} {place content : Text}
    (h : (l.revise place content).importAdded = true) :
    (l.revise place content).after = l.importer.insert place (l.table.lift content).content := by
  unfold revise at h ⊢
  dsimp only at h ⊢
  split at h
  · cases h
  · next hlift =>
    rw [if_neg hlift]
    rw [bne_iff_ne, Importer.ensure] at h
    split at h
    · next hneeds => exact if_pos hneeds
    · exact absurd rfl h

/-- **Substitutions move no declaration.** A table of names holds no brace in a literal, and if a table
holds none then the declarations have the same first and last lines before and after its substitutions;
so a statement that is added stands below the line that is found in the text as it was. -/
theorem extents_lift :
    (∀ name names t, Table.ofNames name names = .ok t → t.Braceless) ∧
    ∀ t : Table, t.Braceless → ∀ content,
      (declarations (t.lift content).content).map Declaration.extent =
        (declarations content).map Declaration.extent ∧
      statementLine (t.lift content).content = statementLine content ∧
      ∀ (i : Importer) (place : Text), (Lifter.revise ⟨t, i⟩ place content).importAdded = true →
        (Lifter.revise ⟨t, i⟩ place content).after =
          ['\n'].intercalate
            ((Text.splitOn '\n' (t.lift content).content).take (statementLine content) ++
              i.insertedLine place (t.lift content).content ::
                (Text.splitOn '\n' (t.lift content).content).drop (statementLine content)) := by
  refine ⟨fun name names t => Table.braceless_of_ofNames, fun t ht content => ?_⟩
  have hextent := Table.extent_declarations_lift ht content
  have hline := statementLine_congr hextent
  refine ⟨hextent, hline, fun i place hadded => ?_⟩
  rw [Lifter.after_of_importAdded hadded, Importer.insert_eq_intercalate, hline]

def fatsText : Text := "import \x7b\n  a\n\x7d from \"x\";\nf(a === \"fats\");\n".toList

/-- In a text with a declaration on three lines and a literal below it. -/
theorem extents_lift_fatsText :
    Table.ofNames Table.standardIdentifier Table.standardNames = .ok Table.standard ∧
      Table.standard.Braceless ∧
      (declarations fatsText).map Declaration.extent = [(0, 2)] ∧
      (Lifter.revise ⟨Table.standard, ⟨Table.standardIdentifier, Importer.standardModule,
        Layout.standard⟩⟩ "a.ts".toList fatsText).importAdded = true ∧
      (declarations (Table.standard.lift fatsText).content).map Declaration.extent =
        (declarations fatsText).map Declaration.extent := by
  have hbraceless := extents_lift.1 _ _ _ Table.ofNames_standard
  obtain ⟨hextent, -, -⟩ := extents_lift.2 _ hbraceless fatsText
  refine ⟨Table.ofNames_standard, hbraceless, ?_, ?_, hextent⟩
  · decide +kernel
  · decide +kernel

end Constify
