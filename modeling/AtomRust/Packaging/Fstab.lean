-- SUMMARY: `fstab_boot_opt`: the awk program that adds or removes the `ro` mount option on the boot partition's lines of an fstab.
import Mathlib.Data.List.Basic

/-!
# The fstab edit

awk hands a line through as it stands unless the program assigns a field of it. Then
the line is put together again from its fields, with one blank between two of them.
-/

namespace Fstab

abbrev Line := List Char

inductive Mode
  | ro
  | rw
  deriving DecidableEq, Repr

/-- `$BOOT`, `/boot/firmware`. -/
def boot : Line :=
  ['/', 'b', 'o', 'o', 't', '/', 'f', 'i', 'r', 'm', 'w', 'a', 'r', 'e']

def roOption : Line := ['r', 'o']

/-- The fields of a line, which blanks and tabs separate. -/
def fields (line : Line) : List Line :=
  (line.splitOnP fun c => c = ' ' || c = '\t').filter (· ≠ [])

/-- `$4`, empty where the line has no fourth field. -/
def optionField (fs : List Line) : Line := fs.getD 3 []

/-- The options except `ro`, joined again. An option in front of which `opts` is still
empty gets no comma. -/
def withoutRo (options : List Line) : Line :=
  (options.filter (· ≠ roOption)).foldl
    (fun opts o => opts ++ (if opts = [] then [] else [',']) ++ o) []

/-- The new `$4`. -/
def newOptions (mode : Mode) (field : Line) : Line :=
  let options := field.splitOn ','
  match mode with
  | .ro => if roOption ∈ options then field else withoutRo options ++ ',' :: roOption
  | .rw => withoutRo options

/-- `$4 = opts`: the fields up to the fourth exist afterwards. -/
def setOptions (fs : List Line) (opts : Line) : List Line :=
  (fs ++ List.replicate (4 - fs.length) []).set 3 opts

/-- `$1 !~ /^#/ && $2 == b`. -/
def isBootLine (fs : List Line) : Bool :=
  (fs.getD 0 []).head? != some '#' && fs.getD 1 [] == boot

def editLine (mode : Mode) (line : Line) : Line :=
  let fs := fields line
  if isBootLine fs then
    [' '].intercalate (setOptions fs (newOptions mode (optionField fs)))
  else line

/-- `fstab_boot_opt`. -/
def bootOpt (mode : Mode) (file : List Line) : List Line := file.map (editLine mode)

example : newOptions .ro ['d', 'e', 'f'] = ['d', 'e', 'f', ',', 'r', 'o'] := by decide

end Fstab
