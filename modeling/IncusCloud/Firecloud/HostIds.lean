import IncusCloud.Lib.OrdMap
import IncusCloud.Lib.Pattern
import IncusCloud.Lib.Text

/-!
# Clustered LVM

`integration/lvm.go`: the host_id of each member that locks clustered LVM, kept as text under one
key of the Incus server configuration; and lvmlockd in lvm.conf. A Go map is a list of pairs with
distinct keys. Both expressions of `EnableLvmlockd` are for whole lines, so what they find is a
line; `LockdEnabled` walks the lines.
-/

namespace IncusCloud.Firecloud

open Lib
open String (ofList)

def keyLVMHostIDs : String := "user.firecloud.lvm_host_ids"

def maxHostID : ℕ := 2000

abbrev HostIDs := OrdMap String ℕ

inductive HostIDError
  | entry (entry : String)
  | id (id name : String)
  | noneLeft (name : String)
  deriving DecidableEq

/-- `unicode.IsSpace`. -/
def isSpace (c : Char) : Bool :=
  [0x09, 0x0a, 0x0b, 0x0c, 0x0d, 0x20, 0x85, 0xa0, 0x1680, 0x2028, 0x2029, 0x202f, 0x205f,
    0x3000].contains c.toNat || 0x2000 ≤ c.toNat && c.toNat ≤ 0x200a

/-- `strings.TrimSpace`. -/
def trimSpace (s : List Char) : List Char := ((s.dropWhile isSpace).reverse.dropWhile isSpace).reverse

/-- `strconv.Atoi`; a number that is too large for it is too large for a host_id as well. -/
def atoi (s : List Char) : Option ℤ :=
  let digits := match s with
    | '-' :: ds => ds
    | '+' :: ds => ds
    | ds => ds
  if digits ≠ [] ∧ digits.all Char.isDigit then
    some (if s.head? = some '-' then -(decimal digits : ℤ) else decimal digits)
  else none

def parseEntry (ids : HostIDs) (entry : String) : Except HostIDError HostIDs :=
  let entry := trimSpace entry.toList
  if entry = [] then .ok ids
  else
    match cut '=' entry with
    | (_, none) => .error (.entry (ofList entry))
    | (name, some idStr) =>
      match atoi idStr with
      | some id =>
        if id < 1 ∨ maxHostID < id then .error (.id (ofList idStr) (ofList name))
        else .ok (ids.set (ofList name) id.toNat)
      | none => .error (.id (ofList idStr) (ofList name))

/-- Reads the value of `KeyLVMHostIDs`. -/
def parseHostIDs (value : String) : Except HostIDError HostIDs := (split ',' value).foldlM parseEntry []

def formatEntry (e : String × ℕ) : String := e.1 ++ "=" ++ toString e.2

/-- Writes the value of `KeyLVMHostIDs`, sorted by id. -/
def formatHostIDs (ids : HostIDs) : String :=
  join ',' ((ids.insertionSort fun a b => a.2 ≤ b.2).map formatEntry)

def assignNext (s : HostIDs × ℕ) (name : String) : Except HostIDError (HostIDs × ℕ) :=
  if (s.1.get name).isSome then .ok s
  else if maxHostID < s.2 + 1 then .error (.noneLeft name)
  else .ok (s.1.set name (s.2 + 1), s.2 + 1)

/-- Gives every member without one the next id after the highest ever handed out; existing entries
are kept as they are. -/
def assignHostIDs (existing : HostIDs) (members : List String) : Except HostIDError HostIDs :=
  ((members.insertionSort (· ≤ ·)).foldlM assignNext
    (existing, existing.foldl (fun highest e => max highest e.2) 0)).map (·.1)

/-! ### lvm.conf -/

open RegularExpression (char)

def lvmConf : String := "/etc/lvm/lvm.conf"

/-- `[ \t]*`. -/
def blanks : RegularExpression Char := (oneOf [' ', '\t']).star

def word (w : String) : RegularExpression Char := (w.toList.map char).foldr (· * ·) 1

/-- `^[ \t]*#?[ \t]*use_lvmlockd[ \t]*=[ \t]*\d+[ \t]*$`. -/
def useLvmlockdLine : RegularExpression Char :=
  blanks * optionally (char '#') * blanks * word "use_lvmlockd" * blanks * char '=' * blanks * (digit * digit.star) * blanks

/-- `^global[ \t]*{[ \t]*$`. -/
def globalSection : RegularExpression Char := word "global" * blanks * char '\x7b' * blanks

def lines (content : List Char) : List (List Char) := content.splitOn '\n'
def unlines (ls : List (List Char)) : List Char := ['\n'].intercalate ls

/-- `\tuse_lvmlockd = 1`. -/
def lockdLine : List Char := "\tuse_lvmlockd = 1".toList

def newConf : List Char := "global \x7b\n\tuse_lvmlockd = 1\n\x7d\n".toList

/-- lvm.conf content with use_lvmlockd = 1 in the global section: the existing (possibly commented)
setting is replaced, or one is added at the top of the section. -/
def enableLvmlockd (content : List Char) : Except String (List Char) :=
  match (lines content).findIdx? useLvmlockdLine.rmatch with
  | some n => .ok (unlines ((lines content).set n lockdLine))
  | none =>
    match (lines content).findIdx? globalSection.rmatch with
    | some n => .ok (unlines ((lines content).insertIdx (n + 1) lockdLine))
    | none => if trimSpace content = [] then .ok newConf else .error ("No global section found in " ++ lvmConf)

/-- What a line sets use_lvmlockd to; `1` is on. -/
def lockdSetting (line : List Char) : Option Bool :=
  match cut '=' (trimSpace line) with
  | (key, some value) =>
    if trimSpace key = "use_lvmlockd".toList then some (trimSpace value = ['1']) else none
  | (_, none) => none

def lockdEnabled (content : List Char) : Bool := ((lines content).findSome? lockdSetting).getD false

end IncusCloud.Firecloud
