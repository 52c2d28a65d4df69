import Mathlib.Data.List.TakeWhile
import Constify.Path
import Constify.Proofs.Text.Split

/-!
# Segments and names of paths

* `Path.segments_through`, `Path.through_inj` : a path through names has these names as its segments;
* `Path.IsEntry`, `Path.names_through` : the names that can stand in a directory are those of a path;
* `Path.segments_join`, `Path.join_append` : the segments of a path below another, and what follows it;
* `Path.HasExtension`, `Path.nameExtension?_eq_some_iff` : the extension of a name;
* `Path.extension?_through` : the extension of a path is that of its last name.
-/

namespace Constify.Path

open PathUnit (slash dot)

variable {α : Type} [PathUnit α] {names other : List (List α)} {base p : List α}

/-! ## Paths through names -/

theorem mem_through {c : α} (h : c ∈ through names) : c = slash ∨ ∃ name ∈ names, c ∈ name := by
  cases names with
  | nil => cases h
  | cons name names =>
    rw [through, Text.intercalate_cons_eq_flatMap, List.mem_append, List.mem_flatMap] at h
    rcases h with h | ⟨other, hother, h⟩
    · exact Or.inr ⟨name, List.mem_cons_self .., h⟩
    · rw [List.singleton_append, List.mem_cons] at h
      exact h.imp_right fun h => ⟨other, List.mem_cons_of_mem _ hother, h⟩

variable [DecidableEq α]

theorem segments_append_cons (x y : List α) :
    segments (x ++ slash :: y) = segments x ++ segments y :=
  List.splitOn_append_cons_self x y

theorem segments_through (hne : names ≠ []) (h : ∀ name ∈ names, slash ∉ name) :
    segments (through names) = names :=
  List.splitOn_intercalate slash h hne

theorem through_inj (hne : names ≠ []) (hne' : other ≠ []) (h : ∀ name ∈ names, slash ∉ name)
    (h' : ∀ name ∈ other, slash ∉ name) (heq : through names = through other) : names = other := by
  rw [← segments_through hne h, ← segments_through hne' h', heq]

/-- A segment that can be the name of an entry of a directory. -/
structure IsEntry (s : List α) : Prop where
  ne_nil : s ≠ []
  ne_dot : s ≠ [dot]
  ne_dots : s ≠ [dot, dot]
  slash_not_mem : slash ∉ s

theorem names_through (hne : names ≠ []) (h : ∀ name ∈ names, IsEntry name) :
    Path.names (through names) = names := by
  rw [Path.names, segments_through hne fun name hname => (h name hname).slash_not_mem]
  refine List.filter_eq_self.mpr fun name hname => ?_
  obtain ⟨hnil, hdot, hdots, -⟩ := h name hname
  simp [hnil, hdot, hdots]

/-! ## Paths below another -/

/-- The path below a directory has the segments of the directory, an empty last one left out, and
then its own. -/
theorem segments_join (hbase : base ≠ []) (hp : isAbsolute p = false) :
    ∃ front, segments (join base p) = front ++ segments p ∧
      (segments base = front ∨ segments base = front ++ [[]]) := by
  unfold join
  rw [if_neg (by simp [hp])]
  split
  · next h =>
    obtain ⟨r, rfl⟩ := List.getLast?_eq_some_iff.mp (h.resolve_left hbase)
    refine ⟨segments r, ?_, Or.inr (segments_append_cons r [])⟩
    rw [List.append_assoc, List.singleton_append, segments_append_cons]
  · exact ⟨segments base, segments_append_cons base p, Or.inl rfl⟩

theorem isAbsolute_join (hbase : base ≠ []) (hp : isAbsolute p = false) :
    isAbsolute (join base p) = isAbsolute base := by
  obtain ⟨c, cs, rfl⟩ := List.exists_cons_of_ne_nil hbase
  unfold join
  rw [if_neg (by simp [hp])]
  split <;> rfl

theorem mem_join {c : α} (h : c ∈ join base p) : c ∈ base ∨ c ∈ p ∨ c = slash := by
  unfold join at h
  split at h
  · exact Or.inr (Or.inl h)
  · split at h
    · exact (List.mem_append.mp h).imp_right Or.inl
    · rcases List.mem_append.mp h with h | h
      · exact Or.inl h
      · exact Or.inr (List.mem_cons.mp h).symm

/-- What follows a path follows it below a directory too. -/
theorem join_append (base : List α) (hp : p ≠ []) (q : List α) : join base (p ++ q) = join base p ++ q := by
  obtain ⟨c, cs, rfl⟩ := List.exists_cons_of_ne_nil hp
  have habs : isAbsolute (c :: cs ++ q) = isAbsolute (c :: cs) := rfl
  unfold join
  rw [habs]
  split
  · rfl
  · split <;> simp

/-- Different paths lead to different ones below a directory. -/
theorem join_inj {q : List α} (hp : isAbsolute p = false) (hq : isAbsolute q = false)
    (h : join base p = join base q) : p = q := by
  unfold join at h
  rw [hp, hq, if_neg Bool.false_ne_true, if_neg Bool.false_ne_true] at h
  split at h
  · exact List.append_cancel_left h
  · exact (List.cons.inj (List.append_cancel_left h)).2

theorem join_ne_nil (hbase : base ≠ []) (hp : isAbsolute p = false) : join base p ≠ [] := by
  unfold join
  rw [if_neg (by simp [hp])]
  split <;> simp [hbase]

/-! ## Extensions -/

/-- Something, a dot and the extension, in which there is no dot, make up the name. -/
def HasExtension (name ext : List α) : Prop :=
  ∃ stem, stem ≠ [] ∧ name = stem ++ dot :: ext ∧ dot ∉ ext

theorem nameExtension?_eq_some_iff {name ext : List α} :
    nameExtension? name = some ext ↔ HasExtension name ext := by
  unfold nameExtension? HasExtension
  constructor
  · intro h
    split at h
    · next a b rest hdrop =>
      have hname : name.reverse.takeWhile (fun c => c != dot) ++
          name.reverse.dropWhile (fun c => c != dot) = name.reverse :=
        List.takeWhile_append_dropWhile
      have ha : a = dot := by
        have := List.head?_dropWhile_not (fun c => c != dot) name.reverse
        rw [hdrop] at this
        simpa using this
      subst ha
      obtain rfl := Option.some.inj h
      refine ⟨(b :: rest).reverse, by simp, ?_, ?_⟩
      · calc name = name.reverse.reverse := (List.reverse_reverse name).symm
          _ = (name.reverse.takeWhile (fun c => c != dot) ++ dot :: b :: rest).reverse := by
            rw [← hdrop, hname]
          _ = _ := by rw [List.reverse_append, List.reverse_cons, List.append_assoc]; rfl
      · intro hdot
        simpa using List.mem_takeWhile_imp (List.mem_reverse.mp hdot)
    · cases h
  · rintro ⟨stem, hstem, rfl, hdot⟩
    have hext : ∀ c ∈ ext.reverse, (c != dot) = true := by
      intro c hc
      rw [List.mem_reverse] at hc
      rw [bne_iff_ne]
      rintro rfl
      exact hdot hc
    obtain ⟨c, cs, hcs⟩ := List.exists_cons_of_ne_nil (List.reverse_ne_nil_iff.mpr hstem)
    rw [List.reverse_append, List.reverse_cons, List.append_assoc, List.singleton_append, hcs,
      List.dropWhile_append_of_pos hext, List.takeWhile_append_of_pos hext]
    simp

theorem extension?_through (hne : names ≠ []) (h : ∀ name ∈ names, IsEntry name) :
    extension? (through names) = nameExtension? (names.getLast hne) := by
  have hsegments : ((segments (through names)).filter fun s => s != [] && s != [dot]) = names := by
    rw [segments_through hne fun name hname => (h name hname).slash_not_mem]
    refine List.filter_eq_self.mpr fun name hname => ?_
    obtain ⟨hnil, hdot, -, -⟩ := h name hname
    simp [hnil, hdot]
  rw [extension?, hsegments, List.getLast?_eq_some_getLast hne]
  exact if_neg (h _ (List.getLast_mem hne)).ne_dots

end Constify.Path
