import Shorthand.Command.Run

/-!
# What commands leave as it is

A command puts one file in its place at most, in folders that it makes if need be.  All other files stay as
they are, and can be reached as before.

* `Store.Keeps`: one store has what is in another one, but for some locations;
* `Store.Keeps.find`: what is kept is found where it was;
* `Store.keeps_makeFolders`, `Store.keeps_write`: what is kept when a file is written;
* `Store.Leaves`: but for the file that a path leads to, a store is left as it was;
* `Command.leaves_run`: what every command leaves behind.
-/

namespace Shorthand

namespace Store

/-! ### Items that are kept -/

/-- All items are kept but those at some locations, and every folder is. -/
structure Keeps (s s' : Store) (but : List String → Prop) : Prop where
  home : s'.home = s.home
  folder : ∀ location, s.item? location = some .folder → s'.item? location = some .folder
  item : ∀ location item, ¬ but location → s.item? location = some item → s'.item? location = some item

variable {s s' s'' : Store} {but : List String → Prop} {p : Path}

theorem Keeps.refl (s : Store) (but : List String → Prop) : s.Keeps s but :=
  ⟨rfl, fun _ h => h, fun _ _ _ h => h⟩

theorem Keeps.trans (h : s.Keeps s' but) (h' : s'.Keeps s'' but) : s.Keeps s'' but where
  home := h'.home.trans h.home
  folder := fun location hl => h'.folder location (h.folder location hl)
  item := fun location item hb hl => h'.item location item hb (h.item location item hb hl)

theorem Keeps.mono {others : List String → Prop} (h : s.Keeps s' but) (hb : ∀ location, but location → others location) :
    s.Keeps s' others where
  home := h.home
  folder := h.folder
  item := fun location item ho hl => h.item location item (fun hbut => ho (hb location hbut)) hl

/-! ### Paths that still lead where they led -/

theorem Keeps.follow (h : s.Keeps s' but) {names : List String} : ∀ {start location : List String},
    s.follow start names = .ok location → s'.follow start names = .ok location := by
  induction names with
  | nil => exact fun hl => hl
  | cons name rest ih =>
    intro start location hl
    unfold Store.follow at hl ⊢
    split at hl
    · next hfolder =>
      rw [h.folder start hfolder]
      dsimp only
      split at hl
      · cases hl
      · next hshort =>
        rw [if_neg hshort]
        exact ih hl
    · cases hl
    · cases hl

theorem Keeps.locate (h : s.Keeps s' but) {location : List String} (hl : s.locate p = .ok location) :
    s'.locate p = .ok location := by
  unfold Store.locate at hl ⊢
  split at hl
  · cases hl
  · next hnull =>
    rw [if_neg hnull]
    split at hl
    · cases hl
    · next hshort =>
      rw [if_neg hshort, h.home]
      exact h.follow hl

theorem exists_of_find {item : Item} (hf : s.find p = .ok item) :
    ∃ location, s.locate p = .ok location ∧ s.item? location = some item := by
  unfold find at hf
  cases hl : s.locate p with
  | error fault =>
    rw [hl] at hf
    cases hf
  | ok location =>
    rw [hl] at hf
    dsimp only [bind, Except.bind] at hf
    split at hf
    · next found hitem =>
      cases hf
      exact ⟨location, rfl, hitem⟩
    · cases hf

theorem find_of_locate {location : List String} {item : Item} (hl : s.locate p = .ok location)
    (hi : s.item? location = some item) : s.find p = .ok item := by
  unfold find
  rw [hl]
  dsimp only [bind, Except.bind]
  rw [hi]
  rfl

theorem Keeps.find (h : s.Keeps s' but) {item : Item} (hf : s.find p = .ok item)
    (hp : ∀ location, s.locate p = .ok location → ¬ but location) : s'.find p = .ok item := by
  obtain ⟨location, hl, hi⟩ := exists_of_find hf
  exact find_of_locate (h.locate hl) (h.item location item (hp location hl) hi)

theorem Keeps.readText (h : s.Keeps s' but) {text : String} (hr : s.readText p = .ok text)
    (hp : ∀ location, s.locate p = .ok location → ¬ but location) : s'.readText p = .ok text := by
  unfold Store.readText readBytes at hr ⊢
  cases hf : s.find p with
  | error fault =>
    rw [hf] at hr
    cases hr
  | ok item =>
    rw [hf] at hr
    rw [h.find hf hp]
    exact hr

/-! ### Writing -/

theorem item?_put_of_ne {location other : List String} (h : other ≠ location) (item : Item) :
    (s.put location item).item? other = s.item? other := by
  unfold put item?
  rw [List.lookup_cons, beq_eq_false_iff_ne.mpr h]
  dsimp only
  induction s.items with
  | nil => rfl
  | cons entry rest ih =>
    obtain ⟨place, there⟩ := entry
    by_cases hp : place = location
    · have hne : (other == place) = false := beq_eq_false_iff_ne.mpr (hp ▸ h)
      rw [List.filter_cons_of_neg (by simp [hp]), List.lookup_cons, hne, ih]
    · rw [List.filter_cons_of_pos (by simp [hp]), List.lookup_cons, List.lookup_cons, ih]

/-- An item is put where there was none, or where it does not matter and is no folder. -/
theorem keeps_put {location : List String}
    (h : ∀ item, s.item? location = some item → but location ∧ item ≠ .folder) (item : Item) :
    s.Keeps (s.put location item) but where
  home := home_put s location item
  folder := by
    -- no folder is lost, for what is replaced is none
    intro other ho
    by_cases he : other = location
    · exact absurd rfl (h .folder (he ▸ ho)).2
    · rw [item?_put_of_ne he, ho]
  item := by
    intro other there hb ho
    by_cases he : other = location
    · exact absurd (he ▸ (h there (he ▸ ho)).1) hb
    · rw [item?_put_of_ne he, ho]

theorem keeps_makeFolder (h : s.makeFolder p = .ok s') : s.Keeps s' but := by
  unfold makeFolder at h
  cases hl : s.locate p with
  | error fault =>
    rw [hl] at h
    cases h
  | ok location =>
    rw [hl] at h
    dsimp only [bind, Except.bind] at h
    split at h
    · cases h
    · next hnone =>
      cases h
      refine keeps_put (fun item hi => ?_) .folder
      rw [hnone] at hi
      cases hi

theorem keeps_finish (h : s.Keeps s' but) (path : Path) {made : Except Fault Store}
    (hm : ∀ s'', made = .ok s'' → s'.Keeps s'' but) : s.Keeps (makeFoldersAlong.finish s' path made).1 but := by
  cases made with
  | error fault => exact h
  | ok s'' => exact h.trans (hm s'' rfl)

theorem keeps_makeFoldersAlong (s : Store) (root : String) (names : List String) :
    s.Keeps (s.makeFoldersAlong root names).1 but := by
  induction names with
  | nil => exact .refl s but
  | cons name above ih =>
    unfold makeFoldersAlong
    dsimp only
    split
    · next made hm => exact keeps_makeFolder hm
    · split
      · next s' fault hs =>
        rw [hs] at ih
        exact ih
      · next s' hs =>
        rw [hs] at ih
        exact keeps_finish ih _ fun s'' hm => keeps_makeFolder hm
    · exact keeps_finish (.refl s but) _ nofun

theorem keeps_makeFolders (s : Store) (p : Path) : s.Keeps (s.makeFolders p).1 but :=
  keeps_makeFoldersAlong s p.root p.names.reverse

theorem keeps_write {text : String} (h : s.write p text = .ok s') :
    s.Keeps s' fun location => s.locate p = .ok location := by
  unfold write at h
  cases hl : s.locate p with
  | error fault =>
    rw [hl] at h
    cases h
  | ok location =>
    rw [hl] at h
    dsimp only [bind, Except.bind] at h
    split at h
    · cases h
    · next hfolder =>
      cases h
      exact (keeps_put (fun item hi => ⟨rfl, fun he => hfolder (he ▸ hi)⟩) _).mono fun _ he => congrArg _ he

/-! ### What is left behind -/

/-- A store is left as it was, but for the file that a path leads to, if there is a path, and for new folders. -/
def Leaves (s : Store) (target? : Option Path) (s' : Store) : Prop :=
  s.Keeps s' fun location => ∃ target ∈ target?, s'.locate target = .ok location

theorem Leaves.refl (s : Store) (target? : Option Path) : s.Leaves target? s := Keeps.refl s _

/-- A file can be read as before if the path does not lead to it. -/
theorem Leaves.readText {target? : Option Path} (h : s.Leaves target? s') {text : String}
    (hr : s.readText p = .ok text)
    (hp : ∀ target ∈ target?, ∀ location, s.locate p = .ok location → s'.locate target ≠ .ok location) :
    s'.readText p = .ok text := by
  refine Keeps.readText h hr fun location hl => ?_
  rintro ⟨target, ht, hl'⟩
  exact hp target ht location hl hl'

end Store

/-! ### Commands -/

/-- The path to which a command writes. -/
def Command.target? : Command → Option Path
  | .convert _ out _ _ => some (.ofText out)
  | _ => none

namespace Run

variable {store : Store} {target? : Option Path} {file : String}

theorem leaves_found (style : ReportStyle) (command : String) (code : Nat) (reports : List Diagnostic)
    (more : List (String × Value)) : store.Leaves target? (found store style command code reports more).store := by
  cases style <;> exact .refl store target?

theorem leaves_withStyle {code format : String} {next : ReportStyle → Outcome}
    (h : ∀ style, store.Leaves target? (next style).store) :
    store.Leaves target? (withStyle store code format next).store := by
  unfold withStyle
  split
  · exact h .text
  · split
    · exact h .json
    · exact .refl store target?

theorem leaves_save (out : String) (w : String × Option Hindrance) (line : String) :
    store.Leaves (some (.ofText out)) (save store out w line).store := by
  unfold save
  dsimp only
  -- the folders are made first, and stay whatever becomes of the file
  have hmade : ∀ made : Store × Except Store.Fault Unit,
      (if (Path.ofText out).parent.isWorkingFolder then (store, .ok ())
        else store.makeFolders (Path.ofText out).parent) = made →
        ∀ but, store.Keeps made.1 but := by
    rintro made rfl but
    split
    · exact .refl store but
    · exact Store.keeps_makeFolders store _
  split
  · next made fault hm => exact hmade _ hm _
  · next made hm =>
    have hkeeps := hmade _ hm
    have hsaved : ∀ s', made.write (.ofText out) w.1 = .ok s' → store.Leaves (some (.ofText out)) s' := by
      intro s' hw
      have hwrite := Store.keeps_write hw
      exact (hkeeps _).trans (hwrite.mono fun location hl => ⟨_, rfl, hwrite.locate hl⟩)
    split
    · exact hkeeps _
    · next s' hw _ => exact hsaved s' hw
    · next s' cause hw _ => exact hsaved s' hw

variable [Library]

theorem leaves_withDocument {failed : Diagnostic → Outcome} {next : Document → Outcome}
    (hf : ∀ report, store.Leaves target? (failed report).store) (hn : ∀ d, store.Leaves target? (next d).store) :
    store.Leaves target? (withDocument store file failed next).store := by
  unfold withDocument
  dsimp only
  rw [Outcome.store_after]
  split
  · exact hn _
  · exact hf _
  · exact .refl store target?
  · exact .refl store target?
  · exact .refl store target?

theorem leaves_withSettings {file? : Option String} {g : Given} {next : Settings → Outcome}
    (h : ∀ s, store.Leaves target? (next s).store) :
    store.Leaves target? (Outcome.withSettings store file? g next).store := by
  unfold Outcome.withSettings
  split
  · exact h _
  · exact .refl store target?
  · exact .refl store target?

theorem leaves_withNodes {g : Given} {next : Document → List Node → Outcome}
    (h : ∀ d nodes, store.Leaves target? (next d nodes).store) :
    store.Leaves target? (withNodes store file g next).store := by
  refine leaves_withDocument (fun report => .refl store target?) fun d => ?_
  split
  · refine leaves_withSettings fun s => ?_
    unfold expanded
    dsimp only
    rw [Outcome.store_after]
    split
    · exact h d _
    · exact .refl store target?
  · exact .refl store target?
  · exact .refl store target?

end Run

open Run in
/-- **A command leaves everything as it is** but for the file to which it writes, and for the folders that it
makes on the way to it. -/
theorem Command.leaves_run [Library] (store : Store) (c : Command) : store.Leaves c.target? (c.run store).store := by
  cases c with
  | validate file format =>
    refine leaves_withStyle fun style => ?_
    refine leaves_withDocument (fun report => leaves_found style _ _ _ _) fun d => ?_
    split
    · exact leaves_found _ _ _ _ _
    · exact .refl store none
    · exact .refl store none
    · exact .refl store none
  | lint file format settings =>
    refine leaves_withStyle fun style => ?_
    refine leaves_withDocument (fun report => leaves_found style _ _ _ _) fun d => leaves_withSettings fun s => ?_
    split
    · exact .refl store none
    · exact .refl store none
    · exact .refl store none
    · exact leaves_found _ _ _ _ _
  | convert file out name g =>
    unfold run Run.convert
    dsimp only
    split
    · exact leaves_withNodes fun d nodes => leaves_save out _ _
    · exact .refl store _
  | draw file g =>
    refine leaves_withNodes fun d nodes => ?_
    split <;> exact .refl store none
  | listVariables settings => exact leaves_withSettings fun s => .refl store none

end Shorthand
