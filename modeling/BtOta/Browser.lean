/-
SelectUpgradedFileActivity: the list the user picks the firmware file
from.

What `java.io.File` answers changes while the list is shown, so every
click brings its own answers (`Files`), those to the calls made of it. A
click asks each path each question once, and one click's answers are
bound by nothing but what `File` promises of them.

`getAbsolutePath` of a path that is absolute is that path, and
`new File("/mnt/")` has the path `/mnt`. `Collections.sort` is stable, as
the insertion sort is; the lower case of a name depends on the locale.

# Left out

`FileArrayAdapter`, which shows the names and sizes, and the catch of
what the loop over the entries throws: that is the null of a directory
that cannot be listed, which ends the loop before its first entry.
-/
import BtOta.Lib.Paths
import Mathlib.Data.List.Infix
import Mathlib.Data.List.Lex
import Mathlib.Data.List.Sort

namespace BtOta

open Paths (Name child getParent)

-- ================================================================== the files

/-- What `java.io.File` answers, call by call. Nothing ties the answers
of two calls together: files come and go. -/
structure Files where
  isDirectory : String → Bool
  /-- `none` is null -/
  listFiles : String → Option (List Name)
  length : String → Nat
  /-- only directories are listed -/
  listed : ∀ p, (listFiles p).isSome → isDirectory p

/-- The entries a loop over `listFiles()` goes through; for `null` the
loop throws, and the exception is caught and dropped. -/
def Files.entries (fs : Files) (f : String) : List Name :=
  (fs.listFiles f).getD []

-- ================================================================ the options

/-- The class `Option`: the name that is shown and sorted by, the path a
click picks, and the size. -/
structure FileOption where
  name : String
  path : String
  size : Nat
  deriving DecidableEq, Repr

/-- The `char`s of a string, which is what `compareTo` goes by: a
character outside the first plane is two. -/
def utf16 (s : String) : List Nat :=
  s.toList.flatMap fun c =>
    if c.toNat < 0x10000 then [c.toNat]
    else [0xD800 + (c.toNat - 0x10000) / 0x400,
      0xDC00 + (c.toNat - 0x10000) % 0x400]

namespace FileOption

/-- `this.compareTo(o) <= 0`: by lower-cased name, char by char, the
shorter first. The exception for a null name is never reached. -/
def notAfter (toLowerCase : String → String) (this o : FileOption) : Prop :=
  utf16 (toLowerCase this.name) ≤ utf16 (toLowerCase o.name)

instance (toLowerCase : String → String) :
    DecidableRel (notAfter toLowerCase) := fun this o =>
  inferInstanceAs
    (Decidable (utf16 (toLowerCase this.name) ≤ utf16 (toLowerCase o.name)))

instance (toLowerCase : String → String) :
    Std.Total (notAfter toLowerCase) :=
  ⟨fun _ _ => le_total _ _⟩

instance (toLowerCase : String → String) :
    IsTrans FileOption (notAfter toLowerCase) :=
  ⟨fun _ _ _ => le_trans⟩

end FileOption

/-- `Collections.sort`, as the stable insertion sort: options of equal
names stay in the order they were found. -/
def sortOptions (toLowerCase : String → String) (fls : List FileOption) :
    List FileOption :=
  fls.insertionSort (FileOption.notAfter toLowerCase)

-- ================================================================ the browser

/-- The directory shown and the list under it, as the last search left
them. -/
structure Browser where
  tvPath : String
  fls : List FileOption
  deriving DecidableEq, Repr

/-- `ff.getName().contains(".img")`. -/
def Files.image (ff : Name) : Bool :=
  ".img".toList <:+: ff.text.toList

/-- What the loop adds of a directory's entries: its directories and its
images, in the order of `listFiles()`. -/
def Files.found (fs : Files) (f : String) : List FileOption :=
  ((fs.entries f).filter fun ff =>
      fs.isDirectory (child f ff) || Files.image ff).map fun ff =>
    ⟨ff.text, child f ff, fs.length (child f ff)⟩

/-- searchBinFiles; `none` is a NullPointerException, of a directory
without a parent. -/
def searchBinFiles (toLowerCase : String → String) (fs : Files)
    (f : String) : Option Browser :=
  if f = "/mnt" then some ⟨f, sortOptions toLowerCase (fs.found f)⟩
  else
    match getParent f with
    | none => none
    | some parent =>
        some ⟨f, sortOptions toLowerCase
          (⟨"..", parent, fs.length f⟩ :: fs.found f)⟩

/-- Where the activity stands: showing a list, finished with or without a
path, or dead of an exception. -/
inductive Browsing
  | showing (b : Browser)
  /-- finish(): RESULT_OK with a path, or RESULT_CANCELED -/
  | finished (result : Option String)
  | crashed
  deriving DecidableEq, Repr

/-- What happens to it. Each action brings the answers of the file system
that are asked for in it. -/
inductive BrowseAct
  /-- it is created again -/
  | create (fs : Files)
  /-- onListItemClick -/
  | click (fs : Files) (position : Nat)
  | onBackPressed

namespace Browsing

/-- A search, or its exception, which nobody catches: the activity dies.
-/
def search (toLowerCase : String → String) (fs : Files) (f : String) :
    Browsing :=
  match searchBinFiles toLowerCase fs f with
  | some b => .showing b
  | none => .crashed

/-- onCreate. -/
def onCreate (toLowerCase : String → String) (fs : Files) : Browsing :=
  search toLowerCase fs "/mnt"

/-- onFileClick: a directory is searched in turn; any other path is the
activity's result, and the activity is over. -/
def onFileClick (toLowerCase : String → String) (fs : Files)
    (o : FileOption) : Browsing :=
  if fs.isDirectory o.path then search toLowerCase fs o.path
  else .finished (some o.path)

/-- One step. A click on a position that the list does not have cannot be
made. -/
def step (toLowerCase : String → String) (s : Browsing) :
    BrowseAct → Option Browsing
  | .create fs =>
      match s with
      | .showing _ => some (onCreate toLowerCase fs)
      | .finished _ | .crashed => none
  | .click fs position =>
      match s with
      | .showing b =>
          (b.fls[position]?).map (onFileClick toLowerCase fs)
      | .finished _ | .crashed => none
  | .onBackPressed =>
      match s with
      | .showing _ => some (.finished none)
      | .finished _ | .crashed => none

/-- The steps, by name: the list is built anew or kept, and the activity
ends at most once. -/
inductive Move (toLowerCase : String → String) :
    Browsing → BrowseAct → Browsing → Prop
  | create (b : Browser) (fs : Files) :
      Move toLowerCase (.showing b) (.create fs) (onCreate toLowerCase fs)
  | click {b : Browser} (fs : Files) (position : Nat) {o : FileOption}
      (ho : o ∈ b.fls) :
      Move toLowerCase (.showing b) (.click fs position)
        (onFileClick toLowerCase fs o)
  | onBackPressed (b : Browser) :
      Move toLowerCase (.showing b) .onBackPressed (.finished none)

theorem step_inv {toLowerCase : String → String} {s s' : Browsing}
    {a : BrowseAct} (h : step toLowerCase s a = some s') :
    Move toLowerCase s a s' := by
  cases s with
  | finished result => cases a <;> cases h
  | crashed => cases a <;> cases h
  | showing b =>
      cases a with
      | create fs =>
          cases h
          exact .create b fs
      | click fs position =>
          obtain ⟨o, ho, rfl⟩ := Option.map_eq_some_iff.mp h
          exact .click fs position (List.mem_of_getElem? ho)
      | onBackPressed =>
          cases h
          exact .onBackPressed b

end Browsing

end BtOta
