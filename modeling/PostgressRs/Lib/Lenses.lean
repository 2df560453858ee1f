import Mathlib.Tactic.Common

/-!
Parts of a value that may be missing: how they are read, changed and composed.
-/

namespace PostgressRs.Lib.Lenses

/-- A part of a value.  A change is read back, changes compose, and a change depends only
on what it does to the part. -/
structure Focus (σ α : Type) where
  get : σ → Option α
  alter : (α → α) → σ → σ
  get_alter : ∀ f s, get (alter f s) = (get s).map f
  alter_id : ∀ s, alter id s = s
  alter_alter : ∀ f g s, alter g (alter f s) = alter (g ∘ f) s
  alter_congr : ∀ f g s, (∀ a, get s = some a → f a = g a) → alter f s = alter g s

namespace Focus

section Composition

variable {σ α β : Type}

def whole : Focus σ σ where
  get := some
  alter := id
  get_alter _ _ := rfl
  alter_id _ := rfl
  alter_alter _ _ _ := rfl
  alter_congr _ _ s h := h s rfl

def missing : Focus σ α where
  get _ := none
  alter _ := id
  get_alter _ _ := rfl
  alter_id _ := rfl
  alter_alter _ _ _ := rfl
  alter_congr _ _ _ _ := rfl

/-- A part of a part. -/
def comp (outer : Focus σ α) (inner : Focus α β) : Focus σ β where
  get s := (outer.get s).bind inner.get
  alter f := outer.alter (inner.alter f)
  get_alter f s := by
    rw [outer.get_alter]
    cases outer.get s with
    | none => rfl
    | some a => exact inner.get_alter f a
  alter_id s := by
    have hinner : inner.alter id = id := funext inner.alter_id
    rw [hinner, outer.alter_id]
  alter_alter f g s := by
    rw [outer.alter_alter]
    congr 1
    funext a
    exact inner.alter_alter f g a
  alter_congr f g s h := by
    apply outer.alter_congr
    intro a ha
    apply inner.alter_congr
    intro b hb
    exact h b (by rw [ha, Option.bind_some, hb])

@[simp] theorem whole_get (s : σ) : (whole : Focus σ σ).get s = some s := rfl

@[simp] theorem comp_get (outer : Focus σ α) (inner : Focus α β) (s : σ) :
    (outer.comp inner).get s = (outer.get s).bind inner.get := rfl

@[simp] theorem comp_alter (outer : Focus σ α) (inner : Focus α β) (f : β → β) (s : σ) :
    (outer.comp inner).alter f s = outer.alter (inner.alter f) s := rfl

/-- The part is replaced. -/
def put (focus : Focus σ α) (a : α) (s : σ) : σ := focus.alter (fun _ => a) s

theorem get_put {focus : Focus σ α} {s : σ} {a : α} (h : focus.get s = some a) (b : α) :
    focus.get (focus.put b s) = some b := by
  rw [put, get_alter, h, Option.map_some]

theorem put_put (focus : Focus σ α) (a b : α) (s : σ) :
    focus.put b (focus.put a s) = focus.put b s := by
  rw [put, put, alter_alter]
  rfl

/-- Nothing changes where the part is missing. -/
theorem alter_of_get_none {focus : Focus σ α} {s : σ} (h : focus.get s = none) (f : α → α) :
    focus.alter f s = s := by
  have hcongr : focus.alter f s = focus.alter id s := by
    apply focus.alter_congr
    intro a ha
    cases h.symm.trans ha
  rw [hcongr, alter_id]

theorem alter_eq_put {focus : Focus σ α} {s : σ} {a : α} (h : focus.get s = some a)
    (f : α → α) : focus.alter f s = focus.put (f a) s := by
  apply focus.alter_congr
  intro b hb
  rw [h, Option.some.injEq] at hb
  rw [hb]

theorem put_get {focus : Focus σ α} {s : σ} {a : α} (h : focus.get s = some a) :
    focus.put a s = s :=
  (alter_eq_put h id).symm.trans (focus.alter_id s)

/-- Different parts give different values. -/
theorem put_inj {focus : Focus σ α} {s : σ} {a b c : α} (h : focus.get s = some a) :
    focus.put b s = focus.put c s ↔ b = c := by
  constructor
  · intro heq
    have hget := congrArg focus.get heq
    rwa [get_put h, get_put h, Option.some.injEq] at hget
  · intro heq
    rw [heq]

theorem comp_put {outer : Focus σ α} {inner : Focus α β} (b : β) (s : σ) :
    (outer.comp inner).put b s = outer.alter (inner.put b) s := rfl

end Composition

section Apart

variable {σ α β γ : Type}

/-- In this value no change of the one part is seen in the other. -/
def ApartAt (left : Focus σ α) (right : Focus σ β) (s : σ) : Prop :=
  ∀ f, right.get (left.alter f s) = right.get s

theorem ApartAt.get_put {left : Focus σ α} {right : Focus σ β} {s : σ}
    (h : ApartAt left right s) (a : α) : right.get (left.put a s) = right.get s := h _

/-- Parts of parts that are apart are apart. -/
theorem ApartAt.comp {left : Focus σ α} {right : Focus σ β} {s : σ} (h : ApartAt left right s)
    (innerLeft : Focus α γ) (innerRight : Focus β γ) :
    ApartAt (left.comp innerLeft) (right.comp innerRight) s := by
  intro f
  rw [comp_get, comp_alter, h, comp_get]

/-- Parts that are apart in a part are apart in the whole. -/
theorem ApartAt.inside {outer : Focus σ α} {left right : Focus α β} {s : σ} {a : α}
    (hget : outer.get s = some a) (h : ApartAt left right a) :
    ApartAt (outer.comp left) (outer.comp right) s := by
  intro f
  rw [comp_get, comp_alter, get_alter, hget, comp_get, hget]
  exact h f

end Apart

section Lists

variable {κ α : Type}

theorem modify_congr {f g : α → α} {l : List α} {i : Nat}
    (h : ∀ a, l[i]? = some a → f a = g a) : l.modify i f = l.modify i g := by
  apply List.ext_getElem?
  intro j
  by_cases hij : i = j
  · subst hij
    rw [List.getElem?_modify_eq, List.getElem?_modify_eq]
    exact Option.map_congr fun a ha => h a ha
  · rw [List.getElem?_modify_ne f l hij, List.getElem?_modify_ne g l hij]

/-- The element of a list at an index. -/
def nth (i : Nat) : Focus (List α) α where
  get l := l[i]?
  alter f l := l.modify i f
  get_alter f l := List.getElem?_modify_eq f i l
  alter_id l := List.modify_id i l
  alter_alter f g l := List.modify_modify_eq f g i l
  alter_congr _ _ _ h := modify_congr h

theorem nth_apart {i j : Nat} (h : i ≠ j) (l : List α) : ApartAt (nth i) (nth j) l :=
  fun f => List.getElem?_modify_ne f l h

variable [DecidableEq κ]

def getEntry (key : κ) (entries : List (κ × α)) : Option α :=
  (entries.find? fun entry => entry.1 = key).map Prod.snd

/-- Only the first entry under the key is changed. -/
def alterEntry (key : κ) (f : α → α) : List (κ × α) → List (κ × α)
  | [] => []
  | entry :: entries =>
      if entry.1 = key then (entry.1, f entry.2) :: entries
      else entry :: alterEntry key f entries

variable {key key' : κ} {f g : α → α} {entry : κ × α} {entries : List (κ × α)}

@[simp] theorem getEntry_cons_self (h : entry.1 = key) :
    getEntry key (entry :: entries) = some entry.2 := by
  unfold getEntry
  rw [List.find?_cons, decide_eq_true h, Option.map_some]

@[simp] theorem getEntry_cons_of_ne (h : entry.1 ≠ key) :
    getEntry key (entry :: entries) = getEntry key entries := by
  unfold getEntry
  rw [List.find?_cons, decide_eq_false h]

@[simp] theorem alterEntry_cons_self (h : entry.1 = key) :
    alterEntry key f (entry :: entries) = (entry.1, f entry.2) :: entries := if_pos h

@[simp] theorem alterEntry_cons_of_ne (h : entry.1 ≠ key) :
    alterEntry key f (entry :: entries) = entry :: alterEntry key f entries := if_neg h

theorem getEntry_alterEntry (f : α → α) (entries : List (κ × α)) :
    getEntry key (alterEntry key f entries) = (getEntry key entries).map f := by
  induction entries with
  | nil => rfl
  | cons entry entries ih =>
      by_cases h : entry.1 = key
      · have hchanged : (entry.1, f entry.2).1 = key := h
        rw [alterEntry_cons_self h, getEntry_cons_self h, getEntry_cons_self hchanged,
          Option.map_some]
      · rw [alterEntry_cons_of_ne h, getEntry_cons_of_ne h, getEntry_cons_of_ne h, ih]

theorem alterEntry_id (entries : List (κ × α)) : alterEntry key id entries = entries := by
  induction entries with
  | nil => rfl
  | cons entry entries ih =>
      by_cases h : entry.1 = key
      · rw [alterEntry_cons_self h]
        rfl
      · rw [alterEntry_cons_of_ne h, ih]

theorem alterEntry_alterEntry (f g : α → α) (entries : List (κ × α)) :
    alterEntry key g (alterEntry key f entries) = alterEntry key (g ∘ f) entries := by
  induction entries with
  | nil => rfl
  | cons entry entries ih =>
      by_cases h : entry.1 = key
      · have hchanged : (entry.1, f entry.2).1 = key := h
        rw [alterEntry_cons_self h, alterEntry_cons_self h, alterEntry_cons_self hchanged]
        rfl
      · rw [alterEntry_cons_of_ne h, alterEntry_cons_of_ne h, alterEntry_cons_of_ne h, ih]

theorem alterEntry_congr (h : ∀ a, getEntry key entries = some a → f a = g a) :
    alterEntry key f entries = alterEntry key g entries := by
  induction entries with
  | nil => rfl
  | cons entry entries ih =>
      by_cases hkey : entry.1 = key
      · rw [alterEntry_cons_self hkey, alterEntry_cons_self hkey, h _ (getEntry_cons_self hkey)]
      · rw [getEntry_cons_of_ne hkey] at h
        rw [alterEntry_cons_of_ne hkey, alterEntry_cons_of_ne hkey, ih h]

theorem getEntry_alterEntry_of_ne (h : key' ≠ key) (f : α → α) (entries : List (κ × α)) :
    getEntry key' (alterEntry key f entries) = getEntry key' entries := by
  induction entries with
  | nil => rfl
  | cons entry entries ih =>
      by_cases hkey : entry.1 = key
      · have hne : entry.1 ≠ key' := fun heq => h (heq.symm.trans hkey)
        have hchanged : (entry.1, f entry.2).1 ≠ key' := hne
        rw [alterEntry_cons_self hkey, getEntry_cons_of_ne hchanged, getEntry_cons_of_ne hne]
      · rw [alterEntry_cons_of_ne hkey]
        by_cases hkey' : entry.1 = key'
        · rw [getEntry_cons_self hkey', getEntry_cons_self hkey']
        · rw [getEntry_cons_of_ne hkey', getEntry_cons_of_ne hkey', ih]

theorem exists_findIdx?_of_getEntry {a : α} (h : getEntry key entries = some a) :
    ∃ pos, entries.findIdx? (fun entry => entry.1 = key) = some pos := by
  obtain ⟨entry, hfind, -⟩ := Option.map_eq_some_iff.mp h
  have hkey := List.find?_some (p := fun entry : κ × α => decide (entry.1 = key)) hfind
  exact ⟨_, List.findIdx?_eq_some_of_exists ⟨entry, List.mem_of_find?_eq_some hfind, hkey⟩⟩

/-- The entry that is read, and what stands around it. -/
theorem eq_append_of_getEntry {a : α} (h : getEntry key entries = some a) :
    ∃ before after, entries = before ++ (key, a) :: after := by
  obtain ⟨entry, hfind, rfl⟩ := Option.map_eq_some_iff.mp h
  obtain ⟨hkey, before, after, hentries, -⟩ := List.find?_eq_some_iff_append.mp hfind
  refine ⟨before, after, ?_⟩
  rw [hentries, ← of_decide_eq_true hkey]

theorem notMem_of_getEntry (h : getEntry key entries = none) :
    ∀ entry ∈ entries, entry.1 ≠ key := by
  intro entry hmem
  have hnone := List.find?_eq_none.mp (Option.map_eq_none_iff.mp h) entry hmem
  exact fun heq => hnone (decide_eq_true heq)

/-- The change at the position of the first entry under the key. -/
theorem alterEntry_eq_modify {pos : Nat}
    (h : entries.findIdx? (fun entry => entry.1 = key) = some pos) (f : α → α) :
    alterEntry key f entries = entries.modify pos fun entry => (entry.1, f entry.2) := by
  induction entries generalizing pos with
  | nil => cases h
  | cons entry entries ih =>
      rw [List.findIdx?_cons] at h
      by_cases hkey : entry.1 = key
      · rw [if_pos (decide_eq_true hkey)] at h
        cases h
        rw [alterEntry_cons_self hkey, List.modify_zero_cons]
      · rw [if_neg (by simpa using hkey)] at h
        obtain ⟨before, hbefore, rfl⟩ := Option.map_eq_some_iff.mp h
        rw [alterEntry_cons_of_ne hkey, List.modify_succ_cons, ih hbefore]

/-- Where no key is repeated, every entry under the key is changed. -/
theorem alterEntry_eq_map (h : (entries.map Prod.fst).Nodup) (f : α → α) :
    alterEntry key f entries =
      entries.map fun entry => if entry.1 = key then (entry.1, f entry.2) else entry := by
  induction entries with
  | nil => rfl
  | cons entry entries ih =>
      rw [List.map_cons, List.nodup_cons] at h
      by_cases hkey : entry.1 = key
      · have hrest : ∀ entry' ∈ entries, entry'.1 ≠ key := fun entry' hmem heq =>
          h.1 (List.mem_map.mpr ⟨entry', hmem, heq.trans hkey.symm⟩)
        rw [alterEntry_cons_self hkey, List.map_cons, if_pos hkey, List.cons_inj_right]
        exact (List.map_congr_left fun entry' hmem => if_neg (hrest entry' hmem)).trans
          (List.map_id _) |>.symm
      · rw [alterEntry_cons_of_ne hkey, List.map_cons, if_neg hkey, ih h.2]

/-- The value of the first entry under a key. -/
def entryAt (key : κ) : Focus (List (κ × α)) α where
  get := getEntry key
  alter := alterEntry key
  get_alter := getEntry_alterEntry
  alter_id := alterEntry_id
  alter_alter := alterEntry_alterEntry
  alter_congr _ _ _ := alterEntry_congr

theorem entryAt_apart (h : key ≠ key') (entries : List (κ × α)) :
    ApartAt (entryAt key) (entryAt key') entries :=
  fun f => getEntry_alterEntry_of_ne h.symm f entries

end Lists

end Focus

end PostgressRs.Lib.Lenses
