import Mathlib.Data.Option.Basic

/-!
# Two writers of one document

A keeper loads a document into a copy of its own, and later stores the copy
back; in between, guests save to the document.  The log of all this, latest
access first, says which fields the guests have saved.  A store keeps what they
saved exactly when it does not differ from what the keeper had loaded.
-/

/-- An access to a shared document. -/
inductive DocAccess (δ : Type)
  /-- The keeper copies the document. -/
  | load (doc : δ)
  /-- A guest replaces the document by another. -/
  | save (before after : δ)
  /-- The keeper replaces the document by its copy. -/
  | store (doc : δ)

namespace DocAccess

variable {δ κ ν : Type} (get : δ → κ → Option ν)

/-- The last time that a guest added or changed the field `k`, it came to `v`. -/
def LastSaved : List (DocAccess δ) → κ → ν → Prop
  | [], _, _ => False
  | .save before after :: log, k, v =>
      (get after k ≠ get before k ∧ get after k = some v) ∨
        (get after k = get before k ∧ LastSaved log k v)
  | .load _ :: log, k, v => LastSaved log k v
  | .store _ :: log, k, v => LastSaved log k v

/-- The same of the guests since the keeper loaded the document. -/
def SavedSince : List (DocAccess δ) → κ → ν → Prop
  | [], _, _ => False
  | .save before after :: log, k, v =>
      (get after k ≠ get before k ∧ get after k = some v) ∨
        (get after k = get before k ∧ SavedSince log k v)
  | .load _ :: _, _, _ => False
  | .store _ :: log, k, v => SavedSince log k v

/-- The document that the keeper loaded last. -/
def loaded? : List (DocAccess δ) → Option δ
  | [] => none
  | .load doc :: _ => some doc
  | .save _ _ :: log => loaded? log
  | .store _ :: log => loaded? log

/-- Every store had all that the guests had saved so far. -/
def Survived : List (DocAccess δ) → Prop
  | [] => True
  | .store doc :: log => Survived log ∧ ∀ k v, LastSaved get log k v → get doc k = some v
  | .load _ :: log => Survived log
  | .save _ _ :: log => Survived log

/-- Before every store, what the guests saved since the load was as it had been loaded. -/
def Undisturbed : List (DocAccess δ) → Prop
  | [] => True
  | .store _ :: log => Undisturbed log ∧
      ∀ k v, SavedSince get log k v → ∃ copy, loaded? log = some copy ∧ get copy k = some v
  | .load _ :: log => Undisturbed log
  | .save _ _ :: log => Undisturbed log

/-- A log in the order of which a document came to what it is.  The guests change the fields
`own` only, and there the copy that is stored is as it was loaded. -/
inductive Played (own : κ → Prop) : List (DocAccess δ) → δ → Prop
  | start (doc : δ) : Played own [] doc
  | load {log : List (DocAccess δ)} {doc : δ} (h : Played own log doc) :
      Played own (.load doc :: log) doc
  | save {log : List (DocAccess δ)} {before after : δ} (h : Played own log before)
      (hown : ∀ k, get after k ≠ get before k → own k) :
      Played own (.save before after :: log) after
  | store {log : List (DocAccess δ)} {before copy doc : δ} (h : Played own log before)
      (hloaded : loaded? log = some copy) (hcopy : ∀ k, own k → get doc k = get copy k) :
      Played own (.store doc :: log) doc

variable {get} {own : κ → Prop} {log : List (DocAccess δ)} {doc : δ} {k : κ} {v : ν}

/-- What was saved since the load was saved last. -/
theorem lastSaved_of_savedSince (h : SavedSince get log k v) : LastSaved get log k v := by
  induction log with
  | nil => exact h
  | cons access log ih =>
      cases access with
      | load doc => exact h.elim
      | store doc => exact ih h
      | save before after => exact h.imp_right fun hkept => ⟨hkept.1, ih hkept.2⟩

/-- The guests save their own fields. -/
theorem Played.own_of_lastSaved (h : Played get own log doc) (hsaved : LastSaved get log k v) :
    own k := by
  induction h with
  | start doc => exact hsaved.elim
  | load h ih => exact ih hsaved
  | save h hown ih =>
      rcases hsaved with hchanged | hkept
      · exact hown k hchanged.1
      · exact ih hkept.2
  | store h hloaded hcopy ih => exact ih hsaved

/-- Where no store lost anything, none had to store something newer than it had loaded. -/
theorem Played.undisturbed (h : Played get own log doc) (hsurvived : Survived get log) :
    Undisturbed get log := by
  induction h with
  | start doc => trivial
  | load h ih => exact ih hsurvived
  | save h hown ih => exact ih hsurvived
  | store h hloaded hcopy ih =>
      refine ⟨ih hsurvived.1, ?_⟩
      intro k v hsince
      have hsaved := lastSaved_of_savedSince hsince
      have hkept := hsurvived.2 k v hsaved
      exact ⟨_, hloaded, (hcopy k (h.own_of_lastSaved hsaved)).symm.trans hkept⟩

/-- The document holds what the guests saved last, and so does the copy unless they
saved it since it was loaded. -/
structure Current (get : δ → κ → Option ν) (log : List (DocAccess δ)) (doc : δ) : Prop where
  stored : ∀ k v, LastSaved get log k v → get doc k = some v
  copied : ∀ k v, LastSaved get log k v → SavedSince get log k v ∨
    ∀ copy, loaded? log = some copy → get copy k = some v

/-- In an undisturbed log the owner's document is the current one. -/
theorem Played.current (h : Played get own log doc) (hundisturbed : Undisturbed get log) :
    Current get log doc := by
  induction h with
  | start doc => exact ⟨fun k v hsaved => hsaved.elim, fun k v hsaved => hsaved.elim⟩
  | load h ih =>
      have hcurrent := ih hundisturbed
      refine ⟨hcurrent.stored, ?_⟩
      intro k v hsaved
      apply Or.inr
      intro copy hcopy
      cases hcopy
      exact hcurrent.stored k v hsaved
  | save h hown ih =>
      have hcurrent := ih hundisturbed
      constructor
      · intro k v hsaved
        rcases hsaved with hchanged | hkept
        · exact hchanged.2
        · exact hkept.1.trans (hcurrent.stored k v hkept.2)
      · intro k v hsaved
        rcases hsaved with hchanged | hkept
        · exact Or.inl (Or.inl hchanged)
        · exact (hcurrent.copied k v hkept.2).imp_left fun hsince => Or.inr ⟨hkept.1, hsince⟩
  | store h hloaded hcopy ih =>
      have hcurrent := ih hundisturbed.1
      refine ⟨?_, hcurrent.copied⟩
      intro k v hsaved
      rw [hcopy k (h.own_of_lastSaved hsaved)]
      rcases hcurrent.copied k v hsaved with hsince | hcopied
      · obtain ⟨copy, hcopy', hkept⟩ := hundisturbed.2 k v hsince
        rw [hloaded] at hcopy'
        cases hcopy'
        exact hkept
      · exact hcopied _ hloaded

/-- In an undisturbed log every key that was saved comes back as it was last saved. -/
theorem Played.survived (h : Played get own log doc) (hundisturbed : Undisturbed get log) :
    Survived get log := by
  induction h with
  | start doc => trivial
  | load h ih => exact ih hundisturbed
  | save h hown ih => exact ih hundisturbed
  | store h hloaded hcopy ih =>
      refine ⟨ih hundisturbed.1, ?_⟩
      have hstored := Played.store h hloaded hcopy
      exact (hstored.current hundisturbed).stored

/-- **When nothing is lost**: what the guests saved has outlived every store, and is there now,
exactly when no store followed on a save that changed what had been loaded. -/
theorem Played.survived_iff (h : Played get own log doc) :
    (Survived get log ∧ ∀ k v, LastSaved get log k v → get doc k = some v) ↔
      Undisturbed get log := by
  constructor
  · intro hboth
    exact h.undisturbed hboth.1
  · intro hundisturbed
    exact ⟨h.survived hundisturbed, (h.current hundisturbed).stored⟩

end DocAccess
