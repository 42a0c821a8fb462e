import Brewhouse.Upload.Loader
import Mathlib.Tactic.Common

/-!
How bytes become fields. What a loader does depends on the bytes of a field and not on how they were
cut: a part of a field is kept, and the byte that completes it decides. Only after a refused field
does the cut matter, since the rest of its chunk is dropped.
-/

namespace Brewhouse.Upload

namespace Progress

def isRefused : Progress → Bool
  | .refused _ => true
  | _ => false

/-- The script that a field has brought. -/
def script? : Progress → Option Script
  | .done script => some script
  | _ => none

theorem eq_accepted {p : Progress} (hrefused : p.isRefused = false) (hscript : p.script? = none) :
    p = .accepted := by
  cases p with
  | accepted => rfl
  | done script => cases hscript
  | refused fault => cases hrefused

end Progress

def Unrefused (progress : List Progress) : Prop :=
  ∀ p ∈ progress, p.isRefused = false

@[simp]
theorem unrefused_nil : Unrefused [] :=
  List.forall_mem_nil _

@[simp]
theorem unrefused_cons {p : Progress} {rest : List Progress} :
    Unrefused (p :: rest) ↔ p.isRefused = false ∧ Unrefused rest :=
  List.forall_mem_cons

@[simp]
theorem unrefused_append {first second : List Progress} :
    Unrefused (first ++ second) ↔ Unrefused first ∧ Unrefused second :=
  List.forall_mem_append

theorem Stage.fieldSize_pos (s : Stage) : 0 < s.fieldSize := by
  cases s <;> simp [fieldSize]

namespace Loader

/-! ### One field -/

/-- The loader after the last byte of a field, and what comes of the field. -/
def conclude (l : Loader) (field : List UInt8) : Loader × Progress :=
  match l.complete field with
  | .ok (.inl stage) => ({ l with stage := stage, field := [] }, .accepted)
  | .ok (.inr script) => (l.reset, .done script)
  | .error fault => (l.reset, .refused fault)

@[simp]
theorem conclude_field (l : Loader) (field : List UInt8) : (l.conclude field).1.field = [] := by
  unfold conclude
  split <;> rfl

/-- A field is taken in whole, whatever part of it was kept. -/
theorem conclude_keep (l : Loader) (part field : List UInt8) :
    { l with field := part }.conclude field = l.conclude field := rfl

theorem feedByte_of_short {l : Loader} {byte : UInt8}
    (hshort : (l.field ++ [byte]).length < l.stage.fieldSize) :
    l.feedByte byte = ({ l with field := l.field ++ [byte] }, none) :=
  if_pos hshort

theorem feedByte_of_full {l : Loader} {byte : UInt8}
    (hfull : ¬(l.field ++ [byte]).length < l.stage.fieldSize) :
    l.feedByte byte =
      ((l.conclude (l.field ++ [byte])).1, some (l.conclude (l.field ++ [byte])).2) := by
  rw [feedByte, if_neg hfull, conclude]
  rcases l.complete (l.field ++ [byte]) with fault | stage | script <;> rfl

/-! ### Chunks -/

theorem feed_cons_of_short {l : Loader} {byte : UInt8} (rest : List UInt8)
    (hshort : (l.field ++ [byte]).length < l.stage.fieldSize) :
    l.feed (byte :: rest) = { l with field := l.field ++ [byte] }.feed rest := by
  rw [feed, feedByte_of_short hshort]

theorem feed_cons_of_full {l : Loader} {byte : UInt8} (rest : List UInt8)
    (hfull : ¬(l.field ++ [byte]).length < l.stage.fieldSize) :
    l.feed (byte :: rest) =
      if (l.conclude (l.field ++ [byte])).2.isRefused then
        ((l.conclude (l.field ++ [byte])).1, [(l.conclude (l.field ++ [byte])).2])
      else
        (((l.conclude (l.field ++ [byte])).1.feed rest).1,
          (l.conclude (l.field ++ [byte])).2 :: ((l.conclude (l.field ++ [byte])).1.feed rest).2) := by
  rw [feed, feedByte_of_full hfull]
  cases hprogress : (l.conclude (l.field ++ [byte])).2 <;> rfl

/-- A part of a field is kept. -/
theorem feed_part {l : Loader} {bytes : List UInt8}
    (hshort : (l.field ++ bytes).length < l.stage.fieldSize) :
    l.feed bytes = ({ l with field := l.field ++ bytes }, []) := by
  induction bytes generalizing l with
  | nil => rw [feed, List.append_nil]
  | cons byte rest ih =>
      rw [List.length_append, List.length_cons] at hshort
      have hbyte : (l.field ++ [byte]).length < l.stage.fieldSize := by
        rw [List.length_append, List.length_singleton]
        omega
      have hrest : (l.field ++ [byte] ++ rest).length < l.stage.fieldSize := by
        rw [List.length_append, List.length_append, List.length_singleton]
        omega
      rw [feed_cons_of_short rest hbyte, ih (l := { l with field := l.field ++ [byte] }) hrest]
      simp only [List.append_assoc, List.singleton_append]

/-- The bytes that complete a field decide on it, and what follows is taken in after it. -/
theorem feed_completing {l : Loader} {bytes : List UInt8} (rest : List UInt8)
    (hroom : l.field.length < l.stage.fieldSize)
    (hfull : (l.field ++ bytes).length = l.stage.fieldSize) :
    l.feed (bytes ++ rest) =
      if (l.conclude (l.field ++ bytes)).2.isRefused then
        ((l.conclude (l.field ++ bytes)).1, [(l.conclude (l.field ++ bytes)).2])
      else
        (((l.conclude (l.field ++ bytes)).1.feed rest).1,
          (l.conclude (l.field ++ bytes)).2 :: ((l.conclude (l.field ++ bytes)).1.feed rest).2) := by
  induction bytes generalizing l with
  | nil =>
      rw [List.append_nil] at hfull
      omega
  | cons byte more ih =>
      rw [List.length_append, List.length_cons] at hfull
      by_cases hlast : more = []
      · subst hlast
        refine feed_cons_of_full rest ?_
        rw [List.length_append, List.length_singleton]
        rw [List.length_nil] at hfull
        omega
      · have hmore : 0 < more.length := List.length_pos_iff.mpr hlast
        have hshort : (l.field ++ [byte]).length < l.stage.fieldSize := by
          rw [List.length_append, List.length_singleton]
          omega
        have hnext := ih (l := { l with field := l.field ++ [byte] }) hshort (by
          simp only [List.length_append, List.length_singleton]
          omega)
        simp only [conclude_keep, List.append_assoc, List.singleton_append] at hnext
        rw [List.cons_append, feed_cons_of_short _ hshort, hnext]

theorem feed_last {l : Loader} {bytes : List UInt8} (hroom : l.field.length < l.stage.fieldSize)
    (hfull : (l.field ++ bytes).length = l.stage.fieldSize) :
    l.feed bytes = ((l.conclude (l.field ++ bytes)).1, [(l.conclude (l.field ++ bytes)).2]) := by
  have := feed_completing [] hroom hfull
  rwa [List.append_nil, feed, ite_self] at this

/-- As long as nothing is refused, taking bytes in piece by piece comes to the same. -/
theorem feed_append {l : Loader} {first : List UInt8} (second : List UInt8)
    (h : Unrefused (l.feed first).2) :
    l.feed (first ++ second) =
      (((l.feed first).1.feed second).1, (l.feed first).2 ++ ((l.feed first).1.feed second).2) := by
  induction first generalizing l with
  | nil => rfl
  | cons byte rest ih =>
      by_cases hshort : (l.field ++ [byte]).length < l.stage.fieldSize
      · rw [feed_cons_of_short rest hshort] at h ⊢
        rw [List.cons_append, feed_cons_of_short _ hshort, ih h]
      · rw [feed_cons_of_full rest hshort] at h ⊢
        rw [List.cons_append, feed_cons_of_full _ hshort]
        split at h
        · next hrefused => simp [hrefused] at h
        · next haccepted =>
            rw [if_neg haccepted, if_neg haccepted, ih (unrefused_cons.mp h).2]
            rfl

/-- What follows a refused field in its chunk is dropped. -/
theorem feed_append_of_refused {l : Loader} {first : List UInt8} (second : List UInt8)
    (h : ¬Unrefused (l.feed first).2) : l.feed (first ++ second) = l.feed first := by
  induction first generalizing l with
  | nil => exact absurd unrefused_nil h
  | cons byte rest ih =>
      by_cases hshort : (l.field ++ [byte]).length < l.stage.fieldSize
      · rw [feed_cons_of_short rest hshort] at h ⊢
        rw [List.cons_append, feed_cons_of_short _ hshort, ih h]
      · rw [feed_cons_of_full rest hshort] at h ⊢
        rw [List.cons_append, feed_cons_of_full _ hshort]
        split at h
        · next hrefused => rw [if_pos hrefused, if_pos hrefused]
        · next haccepted =>
            rw [Bool.not_eq_true] at haccepted
            rw [unrefused_cons, haccepted, eq_self, true_and] at h
            simp only [haccepted, Bool.false_eq_true, if_false, ih h]

theorem unrefused_of_append {l : Loader} {first second : List UInt8}
    (h : Unrefused (l.feed (first ++ second)).2) : Unrefused (l.feed first).2 := by
  by_contra hrefused
  rw [feed_append_of_refused second hrefused] at h
  exact hrefused h

theorem feed_singleton (l : Loader) (byte : UInt8) :
    l.feed [byte] = ((l.feedByte byte).1, (l.feedByte byte).2.toList) := by
  rw [feed]
  rcases l.feedByte byte with ⟨l', _ | _ | _ | _⟩ <;> rfl

/-- Bytes have no say in what the loader is after a reset. -/
theorem reset_feedByte (l : Loader) (byte : UInt8) : (l.feedByte byte).1.reset = l.reset := by
  unfold feedByte
  dsimp only
  split
  · rfl
  · split <;> rfl

theorem reset_feed (l : Loader) (bytes : List UInt8) : (l.feed bytes).1.reset = l.reset := by
  induction bytes generalizing l with
  | nil => rfl
  | cons byte rest ih =>
      have hbyte := l.reset_feedByte byte
      rcases hfeed : l.feedByte byte with ⟨l', _ | _ | _ | _⟩ <;> rw [hfeed] at hbyte <;>
        simp only [feed, hfeed]
      · exact (ih l').trans hbyte
      · exact (ih l').trans hbyte
      · exact (ih l').trans hbyte
      · exact hbyte

def feedAll (l : Loader) : List (List UInt8) → Loader × List Progress
  | [] => (l, [])
  | chunk :: rest =>
    (((l.feed chunk).1.feedAll rest).1, (l.feed chunk).2 ++ ((l.feed chunk).1.feedAll rest).2)

/-- How bytes are cut does not matter where nothing is refused. -/
theorem feedAll_eq_feed_flatten {l : Loader} {chunks : List (List UInt8)}
    (h : Unrefused (l.feedAll chunks).2 ∨ Unrefused (l.feed chunks.flatten).2) :
    l.feedAll chunks = l.feed chunks.flatten := by
  induction chunks generalizing l with
  | nil => rfl
  | cons chunk rest ih =>
      rw [feedAll, List.flatten_cons] at h ⊢
      by_cases hchunk : Unrefused (l.feed chunk).2
      · rw [feed_append _ hchunk] at h ⊢
        rw [unrefused_append, unrefused_append] at h
        rw [ih (h.imp And.right And.right)]
      · rw [feed_append_of_refused _ hchunk, unrefused_append] at h
        exact absurd (h.elim And.left id) hchunk

end Loader

end Brewhouse.Upload
