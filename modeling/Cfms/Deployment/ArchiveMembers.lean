import Cfms.Lib.OrderedDict
import Cfms.Lib.Paths

/-!
# Checks of archive members

`_validate_path_set` for release packages that are ZIP files and the loop of `_extract_tar` for those
that are tar files (`operations/deployment/artifacts.py`), and `_validate_archive_members` for
extension packages (`operations/extensions/packages.py`).  The three have one check in common, against
a dictionary of the members seen so far.

What the members hold is left out: a member gives as many bytes as it declares.
-/

namespace Cfms.Deployment

open Lib Lib.Paths

def maxArchiveMembers : ℕ := 4096

def maxUncompressedBytes : ℕ := 256 * 1024 * 1024

/-- What the checks raise, a `MaintenanceOperationError` each. -/
inductive ArchiveError
  /-- "… package contains more than 4096 members". -/
  | tooManyMembers
  /-- "Unsupported release member type: …", "Unsupported extension archive member type: …". -/
  | memberType (name : String)
  /-- "Encrypted extension archive member is not supported: …". -/
  | encrypted (name : String)
  /-- "Unsupported compression for extension archive member: …". -/
  | compression (name : String)
  /-- "Unsafe … archive path: …". -/
  | unsafePath (name : String)
  /-- "Duplicate … archive path: …". -/
  | duplicate (name : String)
  /-- "… archive file/directory conflict: …". -/
  | conflict (name : String)
  /-- "… package exceeds the 256 MiB uncompressed limit". -/
  | tooLarge
  /-- "Release package must contain exactly one top-level directory". -/
  | topLevel
  /-- "Extension package root is missing required file …". -/
  | missingFile (name : String)
  deriving DecidableEq

structure Member where
  name : String
  isDirectory : Bool
  size : ℕ

/-! ### Names -/

/-- The check of a name in `_archive_parts` and `_archive_member_path`. -/
def plainParts (name : String) : Option (List Component) :=
  let path := name.toList
  let parts := components (removeSlash path)
  if isRelative path && parts.all isPlain then some parts else none

def archiveParts (name : String) : Except ArchiveError (List Component) :=
  match plainParts name with
  | some parts => .ok parts
  | none => .error (.unsafePath name)

def archiveMemberPath (name : String) : Except ArchiveError (List Component) :=
  match plainParts name with
  | some parts => .ok parts
  | none => .error (.unsafePath name)

/-! ### One member -/

/-- The variables of the loops. -/
structure MemberCheck where
  roots : List Component := []
  kinds : OrderedDict (List Char) Bool := ∅
  totalSize : ℕ := 0

def hasFileParent (folding : CaseFolding) (kinds : OrderedDict (List Char) Bool)
    (parts : List Component) : Bool :=
  (List.range' 1 (parts.length - 1)).any fun index =>
    kinds.lookup (folding.casefold (join (parts.take index))) == some false

/-- The body of the loops, from `roots.add(parts[0])` to `kinds[normalized] = is_directory`. -/
def checkMember (folding : CaseFolding) (check : MemberCheck) (member : Member)
    (parts : List Component) : Except ArchiveError MemberCheck :=
  let normalized := folding.casefold (join parts)
  if (check.kinds.lookup normalized).isSome then .error (.duplicate member.name)
  else if hasFileParent folding check.kinds parts then .error (.conflict member.name)
  else if !member.isDirectory &&
      check.kinds.any fun path _ => (normalized ++ ['/']).isPrefixOf path then
    .error (.conflict member.name)
  else if !member.isDirectory && maxUncompressedBytes < check.totalSize + member.size then
    .error .tooLarge
  else .ok {
    roots := check.roots.insert (parts.headD [])
    kinds := check.kinds.assign normalized member.isDirectory
    totalSize := if member.isDirectory then check.totalSize else check.totalSize + member.size }

/-- `len(roots) != 1`, or `roots.pop()`. -/
def topLevel (check : MemberCheck) : Except ArchiveError Component :=
  match check.roots with
  | [root] => .ok root
  | _ => .error .topLevel

/-! ### ZIP releases -/

/-- The body of the loop in `_validate_path_set`, with `paths`. -/
def validatePath (folding : CaseFolding)
    (state : MemberCheck × OrderedDict String (List Component)) (member : Member) :
    Except ArchiveError (MemberCheck × OrderedDict String (List Component)) := do
  let parts ← archiveParts member.name
  let check ← checkMember folding state.1 member parts
  return (check, state.2.assign member.name parts)

def validatePathSet (folding : CaseFolding) (entries : List Member) :
    Except ArchiveError (Component × OrderedDict String (List Component)) :=
  if maxArchiveMembers < entries.length then .error .tooManyMembers
  else do
    let (check, paths) ← entries.foldlM (validatePath folding) ({}, ∅)
    let root ← topLevel check
    return (root, paths)

/-! ### Tar releases -/

inductive TarKind
  | file
  | directory
  | other
  deriving DecidableEq

structure TarInfo where
  name : String
  kind : TarKind
  size : ℕ

def TarInfo.member (info : TarInfo) : Member := ⟨info.name, info.kind = .directory, info.size⟩

def Member.tarInfo (member : Member) : TarInfo :=
  ⟨member.name, if member.isDirectory then .directory else .file, member.size⟩

/-- The body of the loop in `_extract_tar`, with `member_count`. -/
def extractMember (folding : CaseFolding) (state : ℕ × MemberCheck) (info : TarInfo) :
    Except ArchiveError (ℕ × MemberCheck) :=
  if maxArchiveMembers < state.1 + 1 then .error .tooManyMembers
  else if info.kind = .other then .error (.memberType info.name)
  else do
    let parts ← archiveParts info.name
    let check ← checkMember folding state.2 info.member parts
    return (state.1 + 1, check)

def extractTar (folding : CaseFolding) (members : List TarInfo) : Except ArchiveError Component := do
  let (_, check) ← members.foldlM (extractMember folding) (0, {})
  topLevel check

/-! ### Extension packages -/

structure ZipInfo where
  origFilename : String
  isDirectory : Bool
  flagBits : ℕ
  compressType : ℕ
  externalAttr : ℕ
  fileSize : ℕ

def ZipInfo.member (info : ZipInfo) : Member := ⟨info.origFilename, info.isDirectory, info.fileSize⟩

/-- `_validate_member_type`: `stat.S_IFMT` of the mode is zero or the one of the kind. -/
def hasValidType (info : ZipInfo) : Bool :=
  let fileType := ((info.externalAttr >>> 16) &&& 0xFFFF) &&& 0o170000
  fileType == 0 || fileType == if info.isDirectory then 0o040000 else 0o100000

/-- `_ALLOWED_COMPRESSIONS`: `ZIP_STORED` and `ZIP_DEFLATED`. -/
def allowedCompressions : List ℕ := [0, 8]

/-- The body of the loop in `_validate_archive_members`, with `validated`. -/
def validateMember (folding : CaseFolding) (state : MemberCheck × List (ZipInfo × List Component))
    (info : ZipInfo) : Except ArchiveError (MemberCheck × List (ZipInfo × List Component)) :=
  if info.flagBits &&& 1 ≠ 0 then .error (.encrypted info.origFilename)
  else if info.compressType ∉ allowedCompressions then .error (.compression info.origFilename)
  else if !hasValidType info then .error (.memberType info.origFilename)
  else do
    let parts ← archiveMemberPath info.origFilename
    let check ← checkMember folding state.1 info.member parts
    return (check, state.2 ++ [(info, parts)])

def validateArchiveMembers (folding : CaseFolding) (members : List ZipInfo) :
    Except ArchiveError (List (ZipInfo × List Component) × ℕ) :=
  if maxArchiveMembers < members.length then .error .tooManyMembers
  else do
    let (check, validated) ← members.foldlM (validateMember folding) ({}, [])
    match ["manifest.toml", "_extension.py"].find? fun required =>
        check.kinds.lookup (folding.casefold required.toList) != some false with
    | some required => .error (.missingFile required)
    | none => return (validated, check.totalSize)

end Cfms.Deployment
