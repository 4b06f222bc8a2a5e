import BuildMatrix.DataFormat
import BuildMatrix.Platform

/-!
# The build host

The machine a build runs on: the family of its operating system and its architecture.
-/

namespace BuildMatrix

/-- The family of an operating system. -/
inductive OsFamily where
  | windows
  | linux
  | macos
  | freebsd
  | solaris
  | other
  deriving DecidableEq, Inhabited, Repr

namespace OsFamily

def all : List OsFamily := [windows, linux, macos, freebsd, solaris, other]

def name : OsFamily → String
  | windows => "windows"
  | linux => "linux"
  | macos => "macos"
  | freebsd => "freebsd"
  | solaris => "solaris"
  | other => "other"

def ofName? (spelling : String) : Option OsFamily := findName? all name spelling

def systemName : OsFamily → String
  | solaris => "sunos"
  | family => family.name

/-- All but Windows. -/
def isUnix (family : OsFamily) : Bool := family ≠ windows

def isCaseSensitive (family : OsFamily) : Bool := family.isUnix && family ≠ macos

end OsFamily

/-- An architecture. -/
inductive Arch where
  | x64
  | arm64
  deriving DecidableEq, Inhabited, Repr

namespace Arch

def all : List Arch := [x64, arm64]

def name : Arch → String
  | x64 => "x64"
  | arm64 => "arm64"

def ofName? (spelling : String) : Option Arch := findName? all name spelling

end Arch

/-- A **build host**. -/
structure Host where
  os : OsFamily := .linux
  arch : Arch := .x64
  deriving DecidableEq, Inhabited, Repr

namespace Host

/-- The short name of a host, as in `linux-x64`. -/
def familyArch (host : Host) : String :=
  host.os.systemName ++ "-" ++ host.arch.name

/-- A host from a value of a data format; both parts have to be given. -/
def decode? {ν : Type} [DataFormat ν] (value : ν) : Option Host := do
  let fields ← Fields.ofValue? 2 value
  let os ← fields.required 0 "os" (DataFormat.member? OsFamily.ofName?)
  let arch ← fields.required 1 "arch" (DataFormat.member? Arch.ofName?)
  pure { os, arch }

def toJson (host : Host) : Json :=
  .obj [("os", .str host.os.name), ("arch", .str host.arch.name)]

end Host

end BuildMatrix
