import Mathlib.Tactic
import Constify.Import.Declaration
import Constify.Proofs.Text.LineEnd

/-!
# The lines of a declaration

* `Declaration.braceBalance_append` : the balance of a text is the sum over its parts;
* `Declaration.linesToClose?_eq_some_iff`, `Declaration.linesToClose?_eq_none_iff` : how far the scan for
  the closing brace goes;
* `Declaration.le_extraLines_iff`, `Declaration.le_extraLines_splitOn_iff` : when a declaration takes at
  least so many more lines;
* `ClosesBraces`, `Declaration.count_le_extraLines_iff` : when it takes all lines of a text;
* `Declaration.extraLines_insert` : a line put below a declaration does not change where that ends;
* `Declaration.ofLines_append`, `Declaration.ofLines_cons` : the declarations of lines, one at a time;
* `Declaration.ofLines_splitOn_append`, `Declaration.ofText_mem_ofLines` : the declaration of a text with its
  braces closed, and that of a line that no other declaration reaches;
* `Declaration.ofLines_succ` : the declarations of lines that stand one line further down.
-/

namespace Constify

namespace Declaration

/-! ## The balance of braces -/

theorem braceBalance_nil : braceBalance [] = 0 := rfl

theorem braceBalance_append (a b : Text) : braceBalance (a ++ b) = braceBalance a + braceBalance b := by
  simp only [braceBalance, List.count_append]
  omega

theorem braceBalance_eq_zero {t : Text} (hopen : '{' ∉ t) (hclose : '}' ∉ t) : braceBalance t = 0 := by
  rw [braceBalance, List.count_eq_zero.mpr hopen, List.count_eq_zero.mpr hclose]
  rfl

theorem braceBalance_cons_of_ne {c : Char} (hopen : c ≠ '{') (hclose : c ≠ '}') (t : Text) :
    braceBalance (c :: t) = braceBalance t := by
  rw [braceBalance, List.count_cons_of_ne hopen, List.count_cons_of_ne hclose, braceBalance]

/-- Line feeds do not count. -/
theorem braceBalance_intercalate (lines : List Text) :
    braceBalance (['\n'].intercalate lines) = braceBalance lines.flatten := by
  induction lines with
  | nil => rfl
  | cons line lines ih =>
    cases lines with
    | nil => simp
    | cons line' lines =>
      rw [List.intercalate_cons_cons, List.append_assoc, List.singleton_append, braceBalance_append,
        braceBalance_cons_of_ne (by decide) (by decide), ih, ← braceBalance_append]
      rfl

theorem braceBalance_pos_of_braced {a inside b x y : Text} (ha : '\n' ∉ a ∧ '}' ∉ a) (hinside : '}' ∉ inside)
    (hb : '\n' ∉ b) (h : a ++ '{' :: (inside ++ '}' :: b) = x ++ '\n' :: y) : 0 < braceBalance x := by
  obtain ⟨front, rfl, hfront⟩ : ∃ front, x = a ++ '{' :: front ∧ '}' ∉ front := by
    rcases List.append_eq_append_iff.mp h with ⟨v, rfl, hv⟩ | ⟨v, rfl, hv⟩
    · cases v with
      | nil => cases (List.cons.inj hv).1
      | cons c v =>
        obtain ⟨rfl, hrest⟩ := List.cons.inj hv
        refine ⟨v, rfl, fun hclose => ?_⟩
        rcases List.append_eq_append_iff.mp hrest with ⟨w, rfl, hw⟩ | ⟨w, rfl, -⟩
        · cases w with
          | nil => cases (List.cons.inj hw).1
          | cons c w => exact hb (by simp [(List.cons.inj hw).2])
        · exact hinside (List.mem_append_left w hclose)
    · cases v with
      | nil => cases (List.cons.inj hv).1
      | cons c v =>
        obtain ⟨rfl, -⟩ := List.cons.inj hv
        exact absurd (by simp) ha.1
  have hclose : (a ++ '{' :: front).count '}' = 0 := by
    simp [List.count_eq_zero.mpr ha.2, List.count_eq_zero.mpr hfront]
  have hopen : 0 < (a ++ '{' :: front).count '{' := by simp
  rw [braceBalance, hclose]
  omega

/-! ## The scan for the closing brace -/

theorem linesToClose?_eq_some_iff {depth : Int} {lines : List Text} {k : Nat} :
    linesToClose? depth lines = some k ↔
      k ≤ lines.length ∧ depth + braceBalance (lines.take k).flatten ≤ 0 ∧
        ∀ j < k, 0 < depth + braceBalance (lines.take j).flatten := by
  induction lines generalizing depth k with
  | nil =>
    rw [linesToClose?]
    split
    · next h =>
      rw [Option.some.injEq]
      constructor
      · rintro rfl
        simpa [braceBalance_nil] using h
      · rintro ⟨hk, -, -⟩
        simpa [eq_comm] using hk
    · next h => simp [braceBalance_nil, h]
  | cons line lines ih =>
    rw [linesToClose?]
    split
    · next h =>
      rw [Option.some.injEq]
      constructor
      · rintro rfl
        simpa [braceBalance_nil] using h
      · rintro ⟨-, -, hpos⟩
        cases k with
        | zero => rfl
        | succ k =>
          have := hpos 0 (Nat.succ_pos k)
          simp only [List.take_zero, List.flatten_nil, braceBalance_nil] at this
          omega
    · next h =>
      rw [Option.map_eq_some_iff]
      constructor
      · rintro ⟨m, hm, rfl⟩
        obtain ⟨hlen, hdown, hpos⟩ := ih.mp hm
        refine ⟨by simpa using hlen, ?_, fun j hj => ?_⟩
        · rw [List.take_succ_cons, List.flatten_cons, braceBalance_append]
          omega
        · cases j with
          | zero =>
            simp only [List.take_zero, List.flatten_nil, braceBalance_nil]
            omega
          | succ j =>
            have := hpos j (by omega)
            rw [List.take_succ_cons, List.flatten_cons, braceBalance_append]
            omega
      · rintro ⟨hlen, hdown, hpos⟩
        cases k with
        | zero =>
          simp only [List.take_zero, List.flatten_nil, braceBalance_nil] at hdown
          omega
        | succ k =>
          rw [List.take_succ_cons, List.flatten_cons, braceBalance_append] at hdown
          refine ⟨k, ih.mpr ⟨by simpa using hlen, by omega, fun j hj => ?_⟩, rfl⟩
          have := hpos (j + 1) (by omega)
          rw [List.take_succ_cons, List.flatten_cons, braceBalance_append] at this
          omega

theorem linesToClose?_eq_none_iff {depth : Int} {lines : List Text} :
    linesToClose? depth lines = none ↔
      ∀ k ≤ lines.length, 0 < depth + braceBalance (lines.take k).flatten := by
  constructor
  · intro hnone k
    induction k using Nat.strongRecOn with
    | ind k ih =>
      intro hk
      by_contra hdown
      have : linesToClose? depth lines = some k :=
        linesToClose?_eq_some_iff.mpr ⟨hk, by omega, fun j hj => ih j hj (by omega)⟩
      rw [hnone] at this
      cases this
  · intro hup
    cases h : linesToClose? depth lines with
    | none => rfl
    | some k =>
      obtain ⟨hk, hdown, -⟩ := linesToClose?_eq_some_iff.mp h
      have := hup k hk
      omega

/-- A declaration takes at least `n` more lines if the balance is positive after each of its lines before
that and comes down on a later line. -/
theorem le_extraLines_iff {line : Text} {following : List Text} {n : Nat} (hn : n ≠ 0) :
    n ≤ extraLines line following ↔
      (∀ j < n, 0 < braceBalance (line :: following.take j).flatten) ∧
        ∃ k, n ≤ k ∧ k ≤ following.length ∧ braceBalance (line :: following.take k).flatten ≤ 0 := by
  simp only [List.flatten_cons, braceBalance_append]
  rw [extraLines]
  cases h : linesToClose? (braceBalance line) following with
  | none =>
    rw [linesToClose?_eq_none_iff] at h
    rw [Option.getD_none]
    constructor
    · omega
    · rintro ⟨-, k, -, hk, hdown⟩
      have := h k hk
      omega
  | some m =>
    obtain ⟨hm, hdown, hup⟩ := linesToClose?_eq_some_iff.mp h
    rw [Option.getD_some]
    constructor
    · exact fun hle => ⟨fun j hj => hup j (by omega), m, hle, hm, hdown⟩
    · rintro ⟨hpos, -⟩
      by_contra hlt
      have := hpos m (by omega)
      omega

theorem extraLines_le (line : Text) (following : List Text) :
    extraLines line following ≤ following.length := by
  rw [extraLines]
  cases h : linesToClose? (braceBalance line) following with
  | none => exact Nat.zero_le _
  | some k => exact (linesToClose?_eq_some_iff.mp h).1

/-- The lines so far are what stands in front of the end of a line. -/
theorem braceBalance_flatten_take {x y line : Text} {following : List Text}
    (hlines : Text.splitOn '\n' (x ++ y) = line :: following) (hy : Text.StartsLine y) :
    braceBalance (line :: following.take (x.count '\n')).flatten = braceBalance x := by
  rw [← List.take_succ_cons, ← hlines, Text.take_splitOn_append x hy, ← braceBalance_intercalate,
    Text.intercalate_splitOn]

theorem length_following {t line : Text} {following : List Text}
    (hlines : Text.splitOn '\n' t = line :: following) : following.length = t.count '\n' := by
  have hlength := Text.length_splitOn '\n' t
  rw [hlines, List.length_cons] at hlength
  omega

theorem le_extraLines_splitOn_iff {t line : Text} {following : List Text}
    (ht : Text.splitOn '\n' t = line :: following) {n : Nat} (hn : n ≠ 0) :
    n ≤ extraLines line following ↔
      (∀ x y, t = x ++ y → Text.StartsLine y → x.count '\n' < n → 0 < braceBalance x) ∧
        ∃ x y, t = x ++ y ∧ Text.StartsLine y ∧ n ≤ x.count '\n' ∧ braceBalance x ≤ 0 := by
  have hfront : ∀ x y, t = x ++ y → Text.StartsLine y →
      braceBalance (line :: following.take (x.count '\n')).flatten = braceBalance x := by
    rintro x y rfl hy
    exact braceBalance_flatten_take ht hy
  have hlength := length_following ht
  rw [le_extraLines_iff hn]
  constructor
  · rintro ⟨hup, k, hnk, hk, hdown⟩
    constructor
    · intro x y hxy hy hx
      rw [← hfront x y hxy hy]
      exact hup _ hx
    · obtain ⟨x, y, hxy, hy, rfl⟩ := Text.exists_count_eq (hlength ▸ hk)
      exact ⟨x, y, hxy, hy, hnk, hfront x y hxy hy ▸ hdown⟩
  · rintro ⟨hup, x, y, hxy, hy, hnx, hdown⟩
    have hx : x.count '\n' ≤ t.count '\n' := by
      rw [hxy, List.count_append]
      omega
    refine ⟨fun j hj => ?_, x.count '\n', hnx, hlength ▸ hx, ?_⟩
    · obtain ⟨x', y', hxy', hy', rfl⟩ := Text.exists_count_eq (t := t) (k := j) (by omega)
      rw [hfront x' y' hxy' hy']
      exact hup x' y' hxy' hy' hj
    · rwa [hfront x y hxy hy]

end Declaration

/-- At the end of some line, from the one on which `text` ends, as many braces have been closed as
opened. -/
def ClosesBraces (text rest : Text) : Prop :=
  ∃ x y, rest = x ++ y ∧ Text.StartsLine y ∧ Declaration.braceBalance (text ++ x) ≤ 0

namespace Declaration

/-- A text takes all its lines exactly if the balance is positive at each line feed and comes down
afterwards. -/
theorem count_le_extraLines_iff {text rest line : Text} {following : List Text}
    (hlines : Text.splitOn '\n' (text ++ rest) = line :: following) (hmem : '\n' ∈ text) :
    text.count '\n' ≤ extraLines line following ↔
      (∀ a b, text = a ++ '\n' :: b → 0 < braceBalance a) ∧ ClosesBraces text rest := by
  rw [le_extraLines_splitOn_iff hlines (List.count_pos_iff.mpr hmem).ne']
  refine and_congr ⟨fun h a b hab => ?_, fun h x y hxy hy hx => ?_⟩ ⟨?_, ?_⟩
  · exact h a ('\n' :: (b ++ rest)) (by simp [hab]) (by simp [Text.StartsLine]) (by simp [hab])
  · rcases Text.append_eq_append_of_startsLine hy hxy with ⟨-, v, hv, -⟩ | ⟨hle, -⟩
    · exact h x v hv
    · omega
  · rintro ⟨x, y, hxy, hy, hx, hdown⟩
    rcases Text.append_eq_append_of_startsLine hy hxy with ⟨hlt, -⟩ | ⟨-, v, rfl, hr⟩
    · omega
    · exact ⟨v, y, hr, hy, hdown⟩
  · rintro ⟨x, y, rfl, hy, hdown⟩
    exact ⟨text ++ x, y, by simp, hy, by simp, hdown⟩

theorem extraLines_append {line : Text} {more : List Text}
    (hup : ∀ j < more.length, 0 < braceBalance (line :: more.take j).flatten)
    (hdown : braceBalance (line :: more).flatten ≤ 0) (following : List Text) :
    extraLines line (more ++ following) = more.length := by
  simp only [List.flatten_cons, braceBalance_append] at hup hdown
  have hclose : linesToClose? (braceBalance line) (more ++ following) = some more.length := by
    refine linesToClose?_eq_some_iff.mpr ⟨by simp, by rwa [List.take_left], fun j hj => ?_⟩
    rw [List.take_append_of_le_length hj.le]
    exact hup j hj
  rw [extraLines, hclose, Option.getD_some]

/-- A line with as many opening as closing braces, put below a declaration, does not change where it ends. -/
theorem extraLines_insert {new : Text} (hnew : braceBalance new = 0) (line : Text) (following : List Text) :
    extraLines line (following.take (extraLines line following) ++
      new :: following.drop (extraLines line following)) = extraLines line following := by
  cases h : linesToClose? (braceBalance line) following with
  | none =>
    have hzero : extraLines line following = 0 := by rw [extraLines, h, Option.getD_none]
    have hup := linesToClose?_eq_none_iff.mp h 0 (Nat.zero_le _)
    rw [List.take_zero, List.flatten_nil, braceBalance_nil, Int.add_zero] at hup
    rw [hzero, List.take_zero, List.drop_zero, List.nil_append, extraLines, linesToClose?,
      if_neg (by omega), hnew, Int.add_zero, h]
    rfl
  | some k =>
    obtain ⟨hk, hdown, hup⟩ := linesToClose?_eq_some_iff.mp h
    have hextra : extraLines line following = k := by rw [extraLines, h, Option.getD_some]
    have hlength : (following.take k).length = k := List.length_take_of_le hk
    have hclose : extraLines line (following.take k ++ new :: following.drop k) =
        (following.take k).length := by
      refine extraLines_append (fun j hj => ?_) ?_ _
      · rw [hlength] at hj
        rw [List.flatten_cons, braceBalance_append, List.take_take, Nat.min_eq_left hj.le]
        exact hup j hj
      · rwa [List.flatten_cons, braceBalance_append]
    rw [hextra, hclose, hlength]

/-- The lines of a declaration are what stands in front of the end of its last line. -/
theorem exists_count_eq_extraLines {t line : Text} {following : List Text}
    (hlines : Text.splitOn '\n' t = line :: following) :
    ∃ x y, t = x ++ y ∧ Text.StartsLine y ∧ x.count '\n' = extraLines line following ∧
      ['\n'].intercalate (line :: following.take (extraLines line following)) = x := by
  have hcount : extraLines line following ≤ t.count '\n' :=
    length_following hlines ▸ extraLines_le line following
  obtain ⟨x, y, rfl, hy, hx⟩ := Text.exists_count_eq hcount
  refine ⟨x, y, rfl, hy, hx, ?_⟩
  rw [← List.take_succ_cons, ← hlines, ← hx, Text.take_splitOn_append x hy, Text.intercalate_splitOn]

/-! ## The declarations of lines -/

theorem exists_splitOn_eq_of_prefix {t : Text} (h : "import ".toList <+: t) :
    ∃ line following, Text.splitOn '\n' t = line :: following ∧ isStart line = true := by
  obtain ⟨following, hlines⟩ := Text.exists_splitOn_eq '\n' t
  refine ⟨_, following, hlines, ?_⟩
  obtain ⟨r, rfl⟩ := h
  rw [isStart, List.isPrefixOf_iff_prefix, List.takeWhile_append_of_pos (by decide)]
  exact List.prefix_append _ _

theorem isStart_eq_false {line : Text} (h : ¬ "import ".toList <+: line) :
    isStart line = false := by
  rwa [isStart, Bool.eq_false_iff, Ne, List.isPrefixOf_iff_prefix]

@[simp] theorem first_ofText (first last : Nat) (t : Text) : (ofText first last t).first = first := by
  unfold ofText
  split <;> rfl

@[simp] theorem last_ofText (first last : Nat) (t : Text) : (ofText first last t).last = last := by
  unfold ofText
  split <;> rfl

theorem ofLines_nil (n : Nat) : ofLines n [] = [] := by rw [ofLines]

theorem ofLines_cons_of_not_start {line : Text} (h : isStart line = false) (n : Nat) (lines : List Text) :
    ofLines n (line :: lines) = ofLines (n + 1) lines := by
  rw [ofLines, if_neg (by simp [h])]

theorem ofLines_append {above : List Text} (h : ∀ line ∈ above, isStart line = false) (n : Nat)
    (lines : List Text) : ofLines n (above ++ lines) = ofLines (n + above.length) lines := by
  induction above generalizing n with
  | nil => rfl
  | cons line above ih =>
    rw [List.cons_append, ofLines_cons_of_not_start (h line (by simp)),
      ih fun l hl => h l (List.mem_cons_of_mem _ hl), List.length_cons, Nat.add_assoc, Nat.add_comm 1]

theorem exists_first_start (lines : List Text) :
    (∀ line ∈ lines, isStart line = false) ∨
      ∃ above line following, lines = above ++ line :: following ∧ (∀ l ∈ above, isStart l = false) ∧
        isStart line = true := by
  induction lines with
  | nil => exact Or.inl (by simp)
  | cons line lines ih =>
    cases hstart : isStart line with
    | true => exact Or.inr ⟨[], line, lines, rfl, by simp, hstart⟩
    | false =>
      rcases ih with hnone | ⟨above, line', following, rfl, habove, hline⟩
      · exact Or.inl (List.forall_mem_cons.mpr ⟨hstart, hnone⟩)
      · exact Or.inr ⟨line :: above, line', following, rfl, List.forall_mem_cons.mpr ⟨hstart, habove⟩, hline⟩

/-- A line that starts a declaration is read with the lines that belong to it. -/
theorem ofLines_cons {line : Text} (h : isStart line = true) (n : Nat) (lines : List Text) :
    ofLines n (line :: lines) =
      ofText n (n + extraLines line lines)
          (['\n'].intercalate (line :: lines.take (extraLines line lines))) ::
        ofLines (n + extraLines line lines + 1) (lines.drop (extraLines line lines)) := by
  rw [ofLines, if_pos h]

/-- A line that starts a declaration and opens no more braces than it closes is one of its own. -/
theorem ofLines_cons_of_balance {line : Text} (h : isStart line = true) (hdown : braceBalance line ≤ 0) (n : Nat)
    (lines : List Text) : ofLines n (line :: lines) = ofText n n line :: ofLines (n + 1) lines := by
  have hextra : extraLines line ([] ++ lines) = 0 :=
    extraLines_append (by simp) (by simpa using hdown) lines
  rw [List.nil_append] at hextra
  rw [ofLines_cons h, hextra, Nat.add_zero, List.take_zero, List.drop_zero, List.intercalate_singleton]

/-- The lines of a text with its braces open at each line feed and closed at its end are read as one
declaration, whatever follows. -/
theorem ofLines_splitOn_append {t : Text} (hstart : "import ".toList <+: t)
    (hup : ∀ x y, t = x ++ '\n' :: y → 0 < braceBalance x) (hdown : braceBalance t ≤ 0) (n : Nat)
    (below : List Text) :
    ofLines n (Text.splitOn '\n' t ++ below) =
      ofText n (n + t.count '\n') t :: ofLines (n + t.count '\n' + 1) below := by
  obtain ⟨line, more, hlines, hline⟩ := exists_splitOn_eq_of_prefix hstart
  have hlength := length_following hlines
  have hjoin := Text.intercalate_splitOn '\n' t
  rw [hlines] at hjoin
  have hextra : extraLines line (more ++ below) = more.length := by
    refine extraLines_append (fun j hj => ?_) ?_ below
    · obtain ⟨x, y, rfl, hy, rfl⟩ := Text.exists_count_eq (hlength ▸ hj.le)
      rw [braceBalance_flatten_take hlines hy]
      rcases Text.startsLine_iff.mp hy with rfl | ⟨z, rfl⟩
      · rw [List.append_nil] at hlength
        omega
      · exact hup x z rfl
    · rwa [← braceBalance_intercalate, hjoin]
  rw [hlines, List.cons_append, ofLines_cons hline, hextra, List.take_left, List.drop_left, hjoin, hlength]

/-- A line that starts a declaration is read as its first line, unless a declaration above reaches it. -/
theorem ofText_mem_ofLines {line : Text} (h : isStart line = true) {above following : List Text} {n : Nat}
    (hfree : ∀ d ∈ ofLines n (above ++ line :: following),
      d.first < n + above.length → d.last < n + above.length) :
    ofText (n + above.length) (n + above.length + extraLines line following)
        (['\n'].intercalate (line :: following.take (extraLines line following))) ∈
      ofLines n (above ++ line :: following) := by
  induction hk : above.length using Nat.strongRecOn generalizing above n with
  | ind k ih =>
    subst hk
    cases above with
    | nil =>
      rw [List.nil_append, ofLines_cons h]
      exact List.mem_cons_self
    | cons line' above =>
      rw [List.cons_append] at hfree ⊢
      cases hstart : isStart line' with
      | false =>
        rw [ofLines_cons_of_not_start hstart] at hfree ⊢
        rw [List.length_cons, ← Nat.add_assoc, Nat.add_right_comm] at hfree ⊢
        exact ih above.length (by simp) hfree rfl
      | true =>
        have hle : extraLines line' (above ++ line :: following) ≤ above.length := by
          have := hfree (ofText n _ _) (by rw [ofLines_cons hstart]; exact List.mem_cons_self)
          simp only [first_ofText, last_ofText, List.length_cons] at this
          omega
        rw [ofLines_cons hstart] at hfree ⊢
        generalize extraLines line' (above ++ line :: following) = extra at hle hfree ⊢
        have hnumber : n + (line' :: above).length = n + extra + 1 + (above.drop extra).length := by
          rw [List.length_cons, List.length_drop]
          omega
        rw [List.drop_append_of_le_length hle, hnumber] at hfree ⊢
        exact List.mem_cons_of_mem _ (ih _ (by rw [List.length_drop, List.length_cons]; omega)
          (fun d hd => hfree d (List.mem_cons_of_mem _ hd)) rfl)

/-! ## One line further down -/

def shifted (d : Declaration) : Declaration := { d with first := d.first + 1, last := d.last + 1 }

theorem ofText_succ (first last : Nat) (t : Text) :
    ofText (first + 1) (last + 1) t = (ofText first last t).shifted := by
  unfold ofText
  split <;> rfl

theorem ofLines_succ (n : Nat) (lines : List Text) : ofLines (n + 1) lines = (ofLines n lines).map shifted := by
  induction n, lines using ofLines.induct with
  | case1 n => rw [ofLines_nil, ofLines_nil, List.map_nil]
  | case2 n line lines hstart extra ih =>
    rw [ofLines_cons hstart, ofLines_cons hstart, List.map_cons, ← ofText_succ, ← ih, Nat.add_right_comm n]
  | case3 n line lines hstart ih =>
    have hstart : isStart line = false := by simpa using hstart
    rw [ofLines_cons_of_not_start hstart, ofLines_cons_of_not_start hstart, ih]

end Declaration

end Constify
