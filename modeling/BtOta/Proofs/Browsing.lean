/-
Browsing for the firmware file.

# Files that come and go

The list that is shown is always that of a directory at or beneath
`/mnt`: its options lead to its entries and, unless it is `/mnt` itself,
up to its parent, which therefore is at or beneath `/mnt` too. So no
search is ever made of a directory without a parent, and whatever is
chosen is at or beneath `/mnt` (`stays_below`). It need not be a file:
an option whose directory is gone is chosen as one.

# Files that stay

Then the way up is a directory, and what can be chosen, from whichever
list, are exactly the `.img` files that browsing leads to (`choices`).
-/
import BtOta.Browser
import BtOta.Lib.Lts

namespace BtOta

open Paths (Name child getParent pathOf pathOf_snoc pathOf_eq_root
  getParent_child getParent_pathOf)
open Browsing (search onCreate onFileClick)

variable {toLowerCase : String → String} {fs : Files} {f : String}
  {b : Browser} {o : FileOption} {s s' : Browsing} {a : BrowseAct}
  {ns : List Name} {p : String}

-- ================================================================ one search

theorem mem_found :
    o ∈ fs.found f ↔ ∃ n ∈ fs.entries f,
      (fs.isDirectory (child f n) = true ∨ Files.image n = true)
        ∧ o = ⟨n.text, child f n, fs.length (child f n)⟩ := by
  unfold Files.found
  constructor
  · intro h
    obtain ⟨n, hn, rfl⟩ := List.mem_map.mp h
    obtain ⟨hmem, hkept⟩ := List.mem_filter.mp hn
    exact ⟨n, hmem, Bool.or_eq_true_iff.mp hkept, rfl⟩
  · rintro ⟨n, hmem, hkept, rfl⟩
    exact List.mem_map.mpr
      ⟨n, List.mem_filter.mpr ⟨hmem, Bool.or_eq_true_iff.mpr hkept⟩, rfl⟩

theorem mem_sortOptions {fls : List FileOption} :
    o ∈ sortOptions toLowerCase fls ↔ o ∈ fls :=
  List.mem_insertionSort _

theorem sortOptions_sorted (fls : List FileOption) :
    (sortOptions toLowerCase fls).Pairwise
      (FileOption.notAfter toLowerCase) :=
  List.pairwise_insertionSort _ fls

/-- What a search shows: the options of the directory, sorted, and with
them, unless it is `/mnt`, the way up to its parent. -/
structure Browser.Of (toLowerCase : String → String) (fs : Files)
    (f : String) (b : Browser) : Prop where
  tvPath : b.tvPath = f
  sorted : b.fls.Pairwise (FileOption.notAfter toLowerCase)
  mem : ∀ o, o ∈ b.fls ↔ o ∈ fs.found f
    ∨ f ≠ "/mnt" ∧ ∃ parent, getParent f = some parent
      ∧ o = ⟨"..", parent, fs.length f⟩

theorem searchBinFiles_of (h : searchBinFiles toLowerCase fs f = some b) :
    b.Of toLowerCase fs f := by
  unfold searchBinFiles at h
  split at h
  case isTrue hroot =>
    cases h
    refine ⟨rfl, sortOptions_sorted _, fun o => mem_sortOptions.trans ?_⟩
    constructor
    · exact Or.inl
    · rintro (hfound | ⟨hne, -⟩)
      · exact hfound
      · exact absurd hroot hne
  case isFalse hroot =>
    cases hparent : getParent f with
    | none => simp [hparent] at h
    | some parent =>
        rw [hparent] at h
        cases h
        refine ⟨rfl, sortOptions_sorted _, fun o => mem_sortOptions.trans ?_⟩
        constructor
        · intro ho
          rcases List.mem_cons.mp ho with hup | hfound
          · exact Or.inr ⟨hroot, parent, hparent, hup⟩
          · exact Or.inl hfound
        · rintro (hfound | ⟨-, parent', hsome, rfl⟩)
          · exact List.mem_cons_of_mem _ hfound
          · cases hparent.symm.trans hsome
            exact List.mem_cons_self

/-- Where there is a parent to show, there is something to show; only a
directory without one makes the search throw. -/
theorem searchBinFiles_total
    (h : f = "/mnt" ∨ (getParent f).isSome = true) :
    ∃ b, searchBinFiles toLowerCase fs f = some b := by
  unfold searchBinFiles
  split
  case isTrue => exact ⟨_, rfl⟩
  case isFalse hroot =>
    obtain ⟨parent, hparent⟩ :=
      Option.isSome_iff_exists.mp (h.resolve_left hroot)
    rw [hparent]
    exact ⟨_, rfl⟩

-- ==================================================== files that come and go

/-- The list is that of the directory `ns` beneath `/mnt`, and every
option stays there or goes one step. -/
structure Browser.At (toLowerCase : String → String) (ns : List Name)
    (b : Browser) : Prop where
  tvPath : b.tvPath = pathOf "/mnt" ns
  sorted : b.fls.Pairwise (FileOption.notAfter toLowerCase)
  /-- every option leads up or to an entry -/
  option : ∀ o ∈ b.fls,
    (ns ≠ [] ∧ o.name = ".." ∧ o.path = pathOf "/mnt" ns.dropLast)
      ∨ ∃ n : Name, o.name = n.text ∧ o.path = pathOf "/mnt" (ns ++ [n])
  /-- and but for `/mnt` there is a way up -/
  up : ns ≠ [] →
    ∃ o ∈ b.fls, o.name = ".." ∧ o.path = pathOf "/mnt" ns.dropLast

/-- The activity has not left `/mnt`, neither with what it shows nor with
what it returns. -/
def Browsing.Below (toLowerCase : String → String) : Browsing → Prop
  | .showing b => ∃ ns, b.At toLowerCase ns
  | .finished result => ∀ p ∈ result, ∃ ns, p = pathOf "/mnt" ns
  | .crashed => False

theorem search_below (toLowerCase : String → String) (fs : Files)
    (ns : List Name) :
    (search toLowerCase fs (pathOf "/mnt" ns)).Below toLowerCase := by
  have hmnt : ("/mnt" : String) ≠ "" := by decide
  have hparent : ns ≠ [] →
      getParent (pathOf "/mnt" ns) = some (pathOf "/mnt" ns.dropLast) :=
    getParent_pathOf hmnt
  have htotal : pathOf "/mnt" ns = "/mnt"
      ∨ (getParent (pathOf "/mnt" ns)).isSome = true := by
    by_cases hns : ns = []
    · exact Or.inl (pathOf_eq_root.mpr hns)
    · exact Or.inr (Option.isSome_iff_exists.mpr ⟨_, hparent hns⟩)
  obtain ⟨b, hb⟩ :=
    @searchBinFiles_total toLowerCase fs (pathOf "/mnt" ns) htotal
  unfold search
  rw [hb]
  have hof := searchBinFiles_of hb
  refine ⟨ns, hof.tvPath, hof.sorted, ?_, ?_⟩
  · intro o ho
    rcases (hof.mem o).mp ho with hfound | ⟨hne, parent, hsome, rfl⟩
    · obtain ⟨n, -, -, rfl⟩ := mem_found.mp hfound
      exact Or.inr ⟨n, rfl, (pathOf_snoc "/mnt" ns n).symm⟩
    · have hns : ns ≠ [] := fun h => hne (pathOf_eq_root.mpr h)
      cases hsome.symm.trans (hparent hns)
      exact Or.inl ⟨hns, rfl, rfl⟩
  · intro hns
    refine ⟨_, (hof.mem _).mpr (Or.inr ⟨?_, _, hparent hns, rfl⟩), rfl, rfl⟩
    exact fun h => hns (pathOf_eq_root.mp h)

theorem Browsing.Below.step (hi : s.Below toLowerCase)
    (h : Browsing.step toLowerCase s a = some s') :
    s'.Below toLowerCase := by
  cases Browsing.step_inv h with
  | create b fs => exact search_below toLowerCase fs []
  | onBackPressed b =>
      intro p hp
      cases hp
  | @click b fs position o ho =>
      obtain ⟨ns, hat⟩ := hi
      -- up or down, the option's path is one below `/mnt`
      have hpath : ∃ ms, o.path = pathOf "/mnt" ms := by
        rcases hat.option o ho with ⟨-, -, hup⟩ | ⟨n, -, hdown⟩
        · exact ⟨_, hup⟩
        · exact ⟨_, hdown⟩
      obtain ⟨ms, hms⟩ := hpath
      unfold onFileClick
      split
      case isTrue =>
        rw [hms]
        exact search_below toLowerCase fs ms
      case isFalse =>
        intro p hp
        cases hp
        exact ⟨ms, hms⟩

/-- The directory of a card. -/
def sdcard : Name :=
  ⟨"sdcard", by decide, by decide, by decide⟩

/-- The image on it. -/
def fwImg : Name := ⟨"fw.img", by decide, by decide, by decide⟩

/-- What is beneath `/mnt` with the card and without it, which is what a
user can change between two clicks. -/
def Files.withCard (present : Bool) : Files where
  isDirectory p := p = "/mnt" ∨ present ∧ p = "/mnt/sdcard"
  listFiles p :=
    if p = "/mnt" then some (if present then [sdcard] else [])
    else if present ∧ p = "/mnt/sdcard" then some [fwImg]
    else none
  length _ := 0
  listed := by
    intro p h
    refine decide_eq_true ?_
    split at h
    case isTrue hroot => exact Or.inl hroot
    case isFalse =>
      split at h
      case isTrue hcard => exact Or.inr hcard
      case isFalse => cases h

/-- It is `fs` that answers: the files stay as they are over the whole
run. -/
def BrowseAct.asks (fs : Files) : BrowseAct → Prop
  | .create fs' | .click fs' _ => fs' = fs
  | .onBackPressed => True

/-- The directories that browsing leads to, from `/mnt` down, each by an
option of the one above it. -/
inductive Browsable (fs : Files) : String → Prop
  | mnt : Browsable fs "/mnt"
  | entry {f : String} {n : Name} (hf : Browsable fs f)
      (hn : n ∈ fs.entries f) (hdir : fs.isDirectory (child f n) = true) :
      Browsable fs (child f n)

/-- The firmware files that are offered: images in directories that
browsing leads to, and no directories themselves. -/
def Offered (fs : Files) (p : String) : Prop :=
  ∃ f n, Browsable fs f ∧ n ∈ fs.entries f ∧ p = child f n
    ∧ fs.isDirectory p = false ∧ Files.image n = true

theorem Files.isDirectory_of_entry {n : Name} (hn : n ∈ fs.entries f) :
    fs.isDirectory f = true := by
  refine fs.listed f ?_
  unfold Files.entries at hn
  cases hlist : fs.listFiles f with
  | none => simp [hlist] at hn
  | some ns => rfl

theorem Browsable.pathOf (h : Browsable fs f) :
    ∃ ns, f = Paths.pathOf "/mnt" ns := by
  induction h with
  | mnt => exact ⟨[], rfl⟩
  | @entry f n _ _ _ ih =>
      obtain ⟨ns, rfl⟩ := ih
      exact ⟨ns ++ [n], (pathOf_snoc "/mnt" ns n).symm⟩

theorem Browsable.ne_empty (h : Browsable fs f) : f ≠ "" := by
  obtain ⟨ns, rfl⟩ := h.pathOf
  exact Paths.pathOf_ne_empty (by decide) ns

/-- The way up is one the browser has come down. -/
theorem Browsable.parent (h : Browsable fs f) (hne : f ≠ "/mnt") :
    ∃ parent, getParent f = some parent ∧ Browsable fs parent
      ∧ fs.isDirectory parent = true := by
  cases h with
  | mnt => exact absurd rfl hne
  | @entry f n hf hn hdir =>
      exact ⟨f, getParent_child hf.ne_empty n, hf,
        Files.isDirectory_of_entry hn⟩

theorem Browsable.shown (toLowerCase : String → String)
    (h : Browsable fs f) :
    ∃ b, searchBinFiles toLowerCase fs f = some b := by
  refine searchBinFiles_total ?_
  by_cases hne : f = "/mnt"
  · exact Or.inl hne
  · obtain ⟨parent, hparent, -⟩ := h.parent hne
    exact Or.inr (Option.isSome_iff_exists.mpr ⟨parent, hparent⟩)

/-- What is shown is a list browsing leads to, and what is returned is
offered. The invariant of `choices`, in one direction. -/
def Browsing.Among (toLowerCase : String → String) (fs : Files) :
    Browsing → Prop
  | .showing b =>
      ∃ f, Browsable fs f ∧ searchBinFiles toLowerCase fs f = some b
  | .finished result => ∀ p ∈ result, Offered fs p
  | .crashed => False

theorem Browsable.among (toLowerCase : String → String)
    (h : Browsable fs f) :
    (search toLowerCase fs f).Among toLowerCase fs := by
  obtain ⟨b, hb⟩ := h.shown toLowerCase
  unfold search
  rw [hb]
  exact ⟨f, h, hb⟩

theorem Browsing.Among.step (hi : s.Among toLowerCase fs)
    (hok : a.asks fs) (h : Browsing.step toLowerCase s a = some s') :
    s'.Among toLowerCase fs := by
  cases Browsing.step_inv h with
  | create b fs' =>
      cases hok
      exact Browsable.mnt.among toLowerCase
  | onBackPressed b =>
      intro p hp
      cases hp
  | @click b fs' position o ho =>
      cases hok
      obtain ⟨f, hf, hb⟩ := hi
      unfold onFileClick
      rcases ((searchBinFiles_of hb).mem o).mp ho with hfound | hup
      · obtain ⟨n, hn, hkept, rfl⟩ := mem_found.mp hfound
        split
        case isTrue hdir => exact (hf.entry hn hdir).among toLowerCase
        case isFalse hdir =>
          intro p hp
          cases hp
          exact ⟨f, n, hf, hn, rfl, Bool.eq_false_iff.mpr hdir,
            hkept.resolve_left hdir⟩
      · obtain ⟨hne, parent, hsome, rfl⟩ := hup
        obtain ⟨parent', hsome', hparent, hdir⟩ := hf.parent hne
        cases hsome.symm.trans hsome'
        rw [if_pos hdir]
        exact hparent.among toLowerCase

/-- The runs over files that answer the same all along. -/
abbrev Stays (toLowerCase : String → String) (fs : Files) :
    Browsing → Browsing → Prop :=
  Lts.Reach (Browsing.step toLowerCase) (fun _ a => a.asks fs)

theorem Stays.among (h : Stays toLowerCase fs (onCreate toLowerCase fs) s) :
    s.Among toLowerCase fs :=
  h.invariant (Browsable.mnt.among toLowerCase)
    fun _ _ _ hi hok hs => hi.step hok hs

/-- A click on an option that is shown. -/
theorem Stays.click (hb : searchBinFiles toLowerCase fs f = some b)
    (ho : o ∈ b.fls) :
    Stays toLowerCase fs (search toLowerCase fs f)
      (onFileClick toLowerCase fs o) := by
  obtain ⟨position, hlt, hget⟩ := List.mem_iff_getElem.mp ho
  refine (Lts.Reach.refl _).tail (a := .click fs position) rfl ?_
  have hshow : search toLowerCase fs f = .showing b := by
    unfold search
    rw [hb]
  rw [hshow]
  show (b.fls[position]?).map (onFileClick toLowerCase fs) = _
  rw [List.getElem?_eq_getElem hlt, hget]
  rfl

/-- From every list the way up leads to `/mnt`, by induction on how far
down it is. -/
theorem Stays.up (h : Browsable fs f) :
    Stays toLowerCase fs (search toLowerCase fs f)
      (onCreate toLowerCase fs) := by
  induction h with
  | mnt => exact Lts.Reach.refl _
  | @entry f n hf hn hdir ih =>
      obtain ⟨b, hb⟩ := (hf.entry hn hdir).shown toLowerCase
      have hne : child f n ≠ "/mnt" := by
        obtain ⟨ns, rfl⟩ := hf.pathOf
        rw [← pathOf_snoc]
        intro h
        exact absurd (pathOf_eq_root.mp h) (by simp)
      have hup := ((searchBinFiles_of hb).mem _).mpr
        (Or.inr ⟨hne, f, getParent_child hf.ne_empty n, rfl⟩)
      have hclick := Stays.click hb hup
      unfold onFileClick at hclick
      rw [if_pos (Files.isDirectory_of_entry hn)] at hclick
      exact hclick.trans ih

/-- And from `/mnt` the way down to every directory, so every list can be
reached from every other. -/
theorem Stays.down (h : Browsable fs f) :
    Stays toLowerCase fs (onCreate toLowerCase fs)
      (search toLowerCase fs f) := by
  induction h with
  | mnt => exact Lts.Reach.refl _
  | @entry f n hf hn hdir ih =>
      obtain ⟨b, hb⟩ := hf.shown toLowerCase
      have hfound := mem_found.mpr ⟨n, hn, Or.inl hdir, rfl⟩
      have hclick :=
        Stays.click hb (((searchBinFiles_of hb).mem _).mpr (Or.inl hfound))
      unfold onFileClick at hclick
      rw [if_pos hdir] at hclick
      exact ih.trans hclick

/-- While the files stay as they are, what can be chosen from a list that
is shown are exactly the files that are offered, whichever list it is. -/
theorem choices
    (h : Stays toLowerCase fs (onCreate toLowerCase fs) (.showing b))
    (p : String) :
    Stays toLowerCase fs (.showing b) (.finished (some p))
      ↔ Offered fs p := by
  constructor
  · intro hp
    exact Stays.among (h.trans hp) p rfl
  · rintro ⟨f, n, hf, hn, rfl, hfile, himage⟩
    obtain ⟨f₀, hf₀, hb₀⟩ := Stays.among h
    have hshow : search toLowerCase fs f₀ = .showing b := by
      unfold search
      rw [hb₀]
    rw [← hshow]
    refine ((Stays.up hf₀).trans (Stays.down hf)).trans ?_
    obtain ⟨b', hb'⟩ := hf.shown toLowerCase
    have hfound := mem_found.mpr ⟨n, hn, Or.inr himage, rfl⟩
    have hclick :=
      Stays.click hb' (((searchBinFiles_of hb').mem _).mpr (Or.inl hfound))
    unfold onFileClick at hclick
    rwa [if_neg (Bool.eq_false_iff.mp hfile)] at hclick

theorem choices_card :
    Stays String.toLower (Files.withCard true)
        (.showing ⟨"/mnt", [⟨"sdcard", "/mnt/sdcard", 0⟩]⟩)
        (.finished (some "/mnt/sdcard/fw.img"))
      ↔ Offered (Files.withCard true) "/mnt/sdcard/fw.img" :=
  have hshow : onCreate String.toLower (Files.withCard true)
      = .showing ⟨"/mnt", [⟨"sdcard", "/mnt/sdcard", 0⟩]⟩ := by
    decide +kernel
  choices (hshow ▸ Lts.Reach.refl _) "/mnt/sdcard/fw.img"

end BtOta
