import Constify.Proofs.Text.Split

/-!
# Cutting a text at the end of a line

* `unlines above` : lines of a text, each with its line feed (`Text.splitOn_unlines_append`);
* `Text.StartsLine y` : `y` is empty or starts with a line feed, so a line of `x ++ y` ends after `x`;
* `Text.exists_splitOn_eq` : the first line;
* `Text.length_splitOn` : a text has one line more than line feeds;
* `Text.exists_count_eq` : there is such an end for each line of a text;
* `Text.splitOn_append_of_startsLine`, `Text.take_splitOn_append` : the lines in front of such an end;
* `Text.append_eq_append_of_startsLine` : a text and such an end, by the number of line feeds in front;
* `Text.CrLf` : every line feed stands behind a carriage return (`Text.crLf_iff`, line by line).
-/

namespace Constify

/-- The lines one after the other, each with its line feed. -/
def unlines (above : List Text) : Text := above.flatMap fun line => line ++ ['\n']

namespace Text

theorem splitOn_unlines_append {above : List Text} (h : ∀ line ∈ above, '\n' ∉ line) (t : Text) :
    splitOn '\n' (unlines above ++ t) = above ++ splitOn '\n' t := by
  induction above with
  | nil => rfl
  | cons line above ih =>
    have hline : splitOn '\n' line = [line] := splitOn_of_not_mem (h line (by simp))
    rw [unlines, List.flatMap_cons, ← unlines, List.append_assoc, List.append_assoc, List.singleton_append,
      splitOn_append_cons, hline, ih fun l hl => h l (List.mem_cons_of_mem _ hl), List.singleton_append,
      List.cons_append]

theorem intercalate_append {sep : Char} {a b : List Text} (ha : a ≠ []) (hb : b ≠ []) :
    [sep].intercalate (a ++ b) = [sep].intercalate a ++ sep :: [sep].intercalate b := by
  rw [intercalate_append_of_ne_nil _ ha hb, List.append_assoc, List.singleton_append]

/-- Nothing follows, or a line feed does. -/
def StartsLine (y : Text) : Prop := ∀ c ∈ y.head?, c = '\n'

theorem startsLine_iff {y : Text} : StartsLine y ↔ y = [] ∨ ∃ z, y = '\n' :: z := by
  cases y with
  | nil => simp [StartsLine]
  | cons c cs => simp [StartsLine]

theorem exists_splitOn_eq (sep : Char) (t : Text) :
    ∃ tail, splitOn sep t = t.takeWhile (fun c => c != sep) :: tail := by
  induction t with
  | nil => exact ⟨[], rfl⟩
  | cons c cs ih =>
    obtain ⟨tail, htail⟩ := ih
    by_cases hc : c = sep
    · refine ⟨splitOn sep cs, ?_⟩
      rw [splitOn, if_pos hc, List.takeWhile_cons_of_neg (by simp [hc])]
    · refine ⟨tail, ?_⟩
      rw [splitOn, if_neg hc, htail, List.takeWhile_cons_of_pos (by simp [hc])]
      rfl

theorem length_splitOn (sep : Char) (t : Text) : (splitOn sep t).length = t.count sep + 1 := by
  induction t with
  | nil => rfl
  | cons c cs ih =>
    by_cases hc : c = sep
    · rw [splitOn, if_pos hc, List.length_cons, ih, hc, List.count_cons_self]
    · obtain ⟨p, ps, hps⟩ := List.exists_cons_of_ne_nil (splitOn_ne_nil sep cs)
      rw [hps] at ih
      rw [splitOn, if_neg hc, hps, consHead, List.count_cons_of_ne hc, ← ih]
      rfl

theorem exists_count_eq {t : Text} {k : Nat} (hk : k ≤ t.count '\n') :
    ∃ x y, t = x ++ y ∧ StartsLine y ∧ x.count '\n' = k := by
  induction t generalizing k with
  | nil => exact ⟨[], [], rfl, by simp [StartsLine], by simpa [eq_comm] using hk⟩
  | cons c cs ih =>
    by_cases hc : c = '\n'
    · subst hc
      cases k with
      | zero => exact ⟨[], _, rfl, by simp [StartsLine], rfl⟩
      | succ k =>
        rw [List.count_cons_self, Nat.add_le_add_iff_right] at hk
        obtain ⟨x, y, rfl, hy, hx⟩ := ih hk
        exact ⟨'\n' :: x, y, rfl, hy, by rw [List.count_cons_self, hx]⟩
    · rw [List.count_cons_of_ne hc] at hk
      obtain ⟨x, y, rfl, hy, hx⟩ := ih hk
      exact ⟨c :: x, y, rfl, hy, by rw [List.count_cons_of_ne hc, hx]⟩

/-- The lines of a text are those in front of the end of a line and those below it; a line put between them
stands between line feeds. -/
theorem splitOn_append_of_startsLine (x : Text) {y : Text} (hy : StartsLine y) :
    ∃ below, splitOn '\n' (x ++ y) = splitOn '\n' x ++ below ∧ ∀ line,
      ['\n'].intercalate (splitOn '\n' x ++ line :: below) = x ++ '\n' :: (line ++ y) := by
  rcases startsLine_iff.mp hy with rfl | ⟨z, rfl⟩
  · refine ⟨[], by simp, fun line => ?_⟩
    rw [intercalate_append (splitOn_ne_nil '\n' x) (by simp), intercalate_splitOn, List.intercalate_singleton,
      List.append_nil]
  · refine ⟨splitOn '\n' z, splitOn_append_cons '\n' x z, fun line => ?_⟩
    have hbelow : ['\n'].intercalate ([line] ++ splitOn '\n' z) = line ++ '\n' :: z := by
      rw [intercalate_append (by simp) (splitOn_ne_nil '\n' z), intercalate_splitOn,
        List.intercalate_singleton]
    rw [intercalate_append (splitOn_ne_nil '\n' x) (by simp), intercalate_splitOn]
    exact congrArg (x ++ '\n' :: ·) hbelow

theorem take_splitOn_append (x : Text) {y : Text} (hy : StartsLine y) :
    (splitOn '\n' (x ++ y)).take (x.count '\n' + 1) = splitOn '\n' x := by
  obtain ⟨below, hbelow, -⟩ := splitOn_append_of_startsLine x hy
  rw [hbelow, ← length_splitOn, List.take_left]

/-- What stands in front of the end of a line is no longer than the text if it has fewer line feeds, and no
shorter if it has as many. -/
theorem append_eq_append_of_startsLine {t r x y : Text} (hy : StartsLine y) (h : t ++ r = x ++ y) :
    (x.count '\n' < t.count '\n' ∧ ∃ v, t = x ++ '\n' :: v ∧ y = '\n' :: (v ++ r)) ∨
      (t.count '\n' ≤ x.count '\n' ∧ ∃ v, x = t ++ v ∧ r = v ++ y) := by
  rcases List.append_eq_append_iff.mp h with ⟨v, rfl, hr⟩ | ⟨v, rfl, rfl⟩
  · exact Or.inr ⟨by simp, v, rfl, hr⟩
  · cases v with
    | nil => exact Or.inr ⟨by simp, [], by simp, by simp⟩
    | cons c cs =>
      obtain rfl : c = '\n' := hy c rfl
      exact Or.inl ⟨by simp, cs, rfl, rfl⟩

/-! ## Line feeds behind carriage returns -/

/-- Every line feed of the text stands behind a carriage return. -/
def CrLf (t : Text) : Prop := ∀ a b, t = a ++ '\n' :: b → a.getLast? = some '\r'

theorem crLf_of_not_mem {t : Text} (h : '\n' ∉ t) : CrLf t := fun a b ht => absurd (by simp [ht]) h

theorem crLf_append_cons {x : Text} (hx : '\n' ∉ x) (y : Text) :
    CrLf (x ++ '\n' :: y) ↔ x.getLast? = some '\r' ∧ CrLf y := by
  constructor
  · refine fun h => ⟨h x y rfl, fun a b hy => ?_⟩
    have hlast := h (x ++ '\n' :: a) b (by simp [hy])
    rw [List.getLast?_append_cons] at hlast
    cases a with
    | nil => cases hlast
    | cons c a => rwa [List.getLast?_cons_cons] at hlast
  · rintro ⟨hlast, hy⟩ a b h
    rcases append_eq_append_of_startsLine (x := a) (by simp [StartsLine]) h with ⟨hlt, -⟩ | ⟨-, v, rfl, hv⟩
    · rw [List.count_eq_zero.mpr hx] at hlt
      omega
    · cases v with
      | nil => rwa [List.append_nil]
      | cons c v =>
        obtain ⟨rfl, rfl⟩ := List.cons.inj hv
        rw [List.getLast?_append_cons, List.getLast?_cons]
        simp [hy v b rfl]

/-- Each line but the last ends with a carriage return. -/
theorem crLf_intercalate {lines : List Text} (h : ∀ line ∈ lines, '\n' ∉ line) :
    CrLf (['\n'].intercalate lines) ↔ ∀ line ∈ lines.dropLast, line.getLast? = some '\r' := by
  induction lines with
  | nil => simp [crLf_of_not_mem]
  | cons line lines ih =>
    cases lines with
    | nil => simpa using crLf_of_not_mem (h line (by simp))
    | cons line' lines =>
      rw [List.intercalate_cons_cons, List.append_assoc, List.singleton_append,
        crLf_append_cons (h line (by simp)), ih fun l hl => h l (List.mem_cons_of_mem _ hl),
        List.dropLast_cons_cons, List.forall_mem_cons]

theorem crLf_iff {t : Text} : CrLf t ↔ ∀ line ∈ (splitOn '\n' t).dropLast, line.getLast? = some '\r' := by
  rw [← crLf_intercalate fun _ => not_mem_of_mem_splitOn, intercalate_splitOn]

instance : DecidablePred CrLf := fun _ => decidable_of_iff _ crLf_iff.symm

/-- The last line ends as the text does. -/
theorem getLast?_getLast_splitOn {sep c : Char} (hc : c ≠ sep) (t : Text) :
    ((splitOn sep t).getLast (splitOn_ne_nil sep t)).getLast? = some c ↔ t.getLast? = some c := by
  have hlines := List.dropLast_append_getLast (splitOn_ne_nil sep t)
  have ht := intercalate_splitOn sep t
  generalize (splitOn sep t).getLast (splitOn_ne_nil sep t) = last at hlines ⊢
  rw [← hlines] at ht
  by_cases hnil : (splitOn sep t).dropLast = []
  · rw [hnil, List.nil_append, List.intercalate_singleton] at ht
    rw [ht]
  · rw [intercalate_append hnil (by simp), List.intercalate_singleton] at ht
    rw [← ht, List.getLast?_append_cons, List.getLast?_cons]
    cases hlast : last.getLast? with
    | none => simp [hc.symm]
    | some d => simp

end Text

end Constify
