import ChannelPreset.Files.Pattern
import ChannelPreset.Files.Tree

/-!
# Operations that Only Look

Finding the paths that a pattern stands for looks at the files of a machine and changes nothing. What
an operation gives that only looks is told by what the operations in it give (`Machine.seen`).
-/

namespace ChannelPreset

namespace Machine

/-- Whether an operation leaves the machine as it is. -/
def OnlyLooks {α : Type} (operation : StateM Machine α) : Prop :=
  ∀ s, (operation.run s).2 = s

namespace OnlyLooks

variable {α β : Type}

theorem look (f : Machine → α) : OnlyLooks (Machine.look f) :=
  fun _ => rfl

theorem pure (a : α) : OnlyLooks (pure a : StateM Machine α) :=
  fun _ => rfl

theorem bind {operation : StateM Machine α} {next : α → StateM Machine β}
    (h : OnlyLooks operation) (hnext : ∀ a, OnlyLooks (next a)) :
    OnlyLooks (operation >>= next) := by
  intro s
  have hrun : ((operation >>= next).run s).2 =
      ((next (operation.run s).1).run (operation.run s).2).2 := rfl
  rw [hrun, hnext, h]

theorem ite {condition : Prop} [Decidable condition] {yes no : StateM Machine α}
    (hyes : OnlyLooks yes) (hno : OnlyLooks no) :
    OnlyLooks (if condition then yes else no) := by
  split
  · exact hyes
  · exact hno

theorem mapM {f : α → StateM Machine β} (h : ∀ a, OnlyLooks (f a)) (as : List α) :
    OnlyLooks (as.mapM f) := by
  induction as with
  | nil => exact pure []
  | cons a as ih =>
    rw [List.mapM_cons]
    exact (h a).bind fun b => ih.bind fun bs => pure (b :: bs)

theorem flatMapM {f : α → StateM Machine (List β)} (h : ∀ a, OnlyLooks (f a)) (as : List α) :
    OnlyLooks (as.flatMapM f) := by
  induction as with
  | nil => exact pure []
  | cons a as ih =>
    rw [List.flatMapM_cons]
    exact (h a).bind fun bs => ih.bind fun rest => pure (bs ++ rest)

theorem filterM {f : α → StateM Machine Bool} (h : ∀ a, OnlyLooks (f a)) (as : List α) :
    OnlyLooks (as.filterM f) := by
  have haux : ∀ as taken, OnlyLooks (List.filterAuxM f as taken) := by
    intro as
    induction as with
    | nil => exact fun taken => pure taken
    | cons a as ih => exact fun taken => (h a).bind fun b => ih _
  exact (haux as []).bind fun taken => pure taken.reverse

end OnlyLooks

/-- What an operation gives on a machine. -/
def seen {α : Type} (s : Machine) (operation : StateM Machine α) : α :=
  (operation.run s).1

section Seen

variable {α β : Type} {s : Machine}

theorem OnlyLooks.seen_bind {operation : StateM Machine α} (h : OnlyLooks operation)
    (next : α → StateM Machine β) :
    s.seen (operation >>= next) = s.seen (next (s.seen operation)) := by
  have hrun : s.seen (operation >>= next) =
      ((next (operation.run s).1).run (operation.run s).2).1 := rfl
  rw [hrun, h]
  rfl

theorem seen_pure (a : α) : s.seen (pure a) = a :=
  rfl

theorem seen_mapM {f : α → StateM Machine β} (h : ∀ a, OnlyLooks (f a)) (as : List α) :
    s.seen (as.mapM f) = as.map fun a => s.seen (f a) := by
  induction as with
  | nil => rfl
  | cons a as ih =>
    rw [List.mapM_cons, (h a).seen_bind, (OnlyLooks.mapM h as).seen_bind, ih]
    rfl

theorem seen_flatMapM {f : α → StateM Machine (List β)} (h : ∀ a, OnlyLooks (f a)) (as : List α) :
    s.seen (as.flatMapM f) = as.flatMap fun a => s.seen (f a) := by
  induction as with
  | nil => rfl
  | cons a as ih =>
    rw [List.flatMapM_cons, (h a).seen_bind, (OnlyLooks.flatMapM h as).seen_bind, ih]
    rfl

theorem seen_filterM {f : α → StateM Machine Bool} (h : ∀ a, OnlyLooks (f a)) (as : List α) :
    s.seen (as.filterM f) = as.filter fun a => s.seen (f a) := by
  have haux : ∀ as taken, s.seen (List.filterAuxM f as taken) =
      (as.filter fun a => s.seen (f a)).reverse ++ taken := by
    intro as
    induction as with
    | nil => exact fun taken => rfl
    | cons a as ih =>
      intro taken
      rw [List.filterAuxM, (h a).seen_bind]
      cases hkept : s.seen (f a) with
      | true =>
        rw [List.filter_cons, if_pos hkept, List.reverse_cons, List.append_assoc]
        exact ih (a :: taken)
      | false =>
        rw [List.filter_cons, if_neg (by simp [hkept])]
        exact ih taken
  have hrun : s.seen (as.filterM f) = (s.seen (List.filterAuxM f as [])).reverse := rfl
  rw [hrun, haux, List.append_nil, List.reverse_reverse]

end Seen

end Machine

namespace Pattern

open Machine

theorem onlyLooks_find (path : String) : OnlyLooks (find host path) :=
  (OnlyLooks.look _).bind fun _ => .pure _

theorem onlyLooks_children (directory : Found) : OnlyLooks (children host directory) :=
  (OnlyLooks.look _).bind fun names => .mapM (fun _ => onlyLooks_find _) names

theorem onlyLooks_descendants (depth : Nat) (directory : Found) :
    OnlyLooks (descendants host depth directory) := by
  induction depth generalizing directory with
  | zero => exact .pure []
  | succ depth ih =>
    rw [descendants]
    refine (onlyLooks_children directory).bind fun found => .flatMapM (fun child => ?_) found
    split
    · exact (ih child).bind fun below => .pure (child :: below)
    · exact .pure [child]

theorem onlyLooks_expand (pieces : List Piece) (found : Found) :
    OnlyLooks (expand host pieces found) := by
  induction hlength : pieces.length using Nat.strongRecOn generalizing pieces found with
  | ind length ih =>
    cases pieces with
    | nil =>
      rw [expand]
      exact .pure [found]
    | cons piece pieces =>
      have hpieces : ∀ found, OnlyLooks (expand host pieces found) :=
        fun found => ih pieces.length (by rw [← hlength]; exact Nat.lt_succ_self _) pieces found rfl
      rw [expand]
      split
      · refine (onlyLooks_find _).bind fun next => ?_
        have hnamed : ∀ named : Bool, OnlyLooks
            (if named = true then expand host pieces next else Pure.pure []) :=
          fun named => .ite (hpieces next) (.pure [])
        exact .ite ((OnlyLooks.pure _).bind hnamed)
          ((OnlyLooks.look _).bind fun _ => (OnlyLooks.pure _).bind hnamed)
      · refine .ite (.pure []) (.ite ?_ ?_)
        · split
          · exact (onlyLooks_descendants _ _).bind fun _ => .pure _
          · rename_i last rest hdrop
            have hrest : rest.length < length := by
              have := (List.dropWhile_suffix isRecursive (l := pieces)).length_le
              rw [hdrop, List.length_cons] at this
              rw [← hlength, List.length_cons]
              omega
            refine (onlyLooks_descendants _ _).bind fun found => .flatMapM (fun below => ?_) found
            exact .ite (ih _ hrest rest below rfl) (.pure [])
        · refine (OnlyLooks.flatMapM (fun name => ?_) _).bind fun dots =>
            (onlyLooks_children found).bind fun inside =>
              (OnlyLooks.flatMapM (fun child => ?_) inside).bind fun others => .pure _
          · exact (onlyLooks_find _).bind hpieces
          · exact .ite (hpieces child) (.pure [])

theorem onlyLooks_paths (pattern : Pattern) : OnlyLooks (paths host pattern) :=
  (onlyLooks_find _).bind fun origin =>
    (onlyLooks_expand pattern.pieces origin).bind fun _ => .pure _

end Pattern

end ChannelPreset
