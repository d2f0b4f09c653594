import SeamlessStack.Lib.Text

/-! The payloads that sfs and sfsd exchange: the C structures under `sstack_payload_t`, and the
messages of `jobs.proto`. A C union is the member that the command selects. Enumerations inside the
structures keep their numbers, since there may be one without a name. -/
namespace SeamlessStack.Serdes
open Lib

def pathMax : ℕ := 4096
def maxMountPointLen : ℕ := 16
def ipv4AddrMax : ℕ := 16
def ipv6AddrMax : ℕ := 40

def data4k : ℕ := 4096
def data64k : ℕ := 65536

def sizeofPointer : ℕ := 8
def sizeofStat : ℕ := 144
def sizeofPayloadHdr : UInt32 := 32
def sizeofPayload : ℕ := 12496

def ipv4 : UInt32 := 1
def ipv6 : UInt32 := 2

inductive StorageCommand
  | add
  | remove
  | update
  deriving DecidableEq, Repr

/-- The commands with the extent handle alone, and every number that is no command. -/
inductive BareCommand
  | getattr
  | readlink
  | mknod
  | link
  | readdir
  | readdirplus
  | fsstat
  | fsinfo
  | pathconf
  | sfsSync
  | sfsAsync
  | unknown (code : ℕ)
  deriving DecidableEq, Repr

/-- The responses that have a status and a handle only. -/
inductive BareResponse
  | addStorage
  | removeStorage
  | updateStorage
  | esureCode
  | mkdir
  | symlink
  | mknod
  | remove
  | rmdir
  | rename
  | link
  | readdir
  | readdirplus
  | fsstat
  | fsinfo
  | pathconf
  | commit
  | setattr
  deriving DecidableEq, Repr

inductive Command
  | storage (c : StorageCommand)
  | bare (c : BareCommand)
  | setattr
  | lookup
  | access
  | read
  | write
  | create
  | mkdir
  | symlink
  | remove
  | rmdir
  | rename
  | commit
  | esureCode
  | bareRsp (r : BareResponse)
  | getattrRsp
  | lookupRsp
  | accessRsp
  | readlinkRsp
  | readRsp
  | writeRsp
  | createRsp
  deriving DecidableEq, Repr

/-- `sstack_address_t`; the two kinds of address share their bytes. -/
structure Address where
  protocol : UInt32
  text : Text ipv6AddrMax
  deriving DecidableEq, Repr

structure FileHandle where
  nameLen : UInt64
  name : Text pathMax
  proto : UInt32
  address : Address
  deriving DecidableEq, Repr

structure Storage where
  path : Text pathMax
  mountPoint : Text maxMountPointLen
  weight : UInt32
  nblocks : UInt64
  protocol : UInt32
  numChunksWritten : UInt64
  address : Address
  deriving DecidableEq, Repr

structure FileAttribute where
  type : UInt32
  mode : UInt32
  numLink : UInt32
  uid : UInt32
  gid : UInt32
  size : UInt64
  used : UInt64
  fsid : UInt64
  fileid : UInt32
  atime : UInt64 × UInt64
  mtime : UInt64 × UInt64
  ctime : UInt64 × UInt64
  deriving DecidableEq, Repr

structure Attribute where
  ver : UInt32
  aQuota : UInt32
  aQoslevel : UInt8
  aIshidden : UInt8
  aNumreplicas : UInt8
  aEnableDr : UInt8
  deriving DecidableEq, Repr

/-- `struct policy_entry` without the array of plugins. -/
structure PolicyEntry where
  peAttr : Attribute
  peNumPlugins : UInt64
  peRefcount : UInt32
  peLock : Int32
  pstIndex : UInt8
  deriving DecidableEq, Repr

/-- The bytes at a buffer, or nothing any more: the pointer was overwritten by a text. -/
inductive Buffer
  | bytes (l : List UInt8)
  | overwritten (t : Text sizeofPointer)
  deriving DecidableEq, Repr

structure Data where
  dataLen : UInt64
  dataBuf : Buffer
  deriving DecidableEq, Repr

structure ReadCmd where
  inodeNo : UInt64
  offset : UInt64
  count : UInt64
  readEcode : Int32
  pe : PolicyEntry
  deriving DecidableEq, Repr

structure WriteCmd where
  inodeNo : UInt64
  offset : UInt64
  count : UInt64
  data : Data
  pe : PolicyEntry
  deriving DecidableEq, Repr

structure CreateCmd where
  inodeNo : UInt64
  mode : UInt32
  data : Data
  pe : PolicyEntry
  deriving DecidableEq, Repr

structure RemoveCmd where
  pathLen : UInt64
  path : Buffer
  deriving DecidableEq, Repr

structure CommitCmd where
  offset : UInt64
  count : UInt64
  deriving DecidableEq, Repr

structure EsureCodeCmd where
  inodeNo : UInt64
  checkExtents : Int32
  extBlocks : List (Int32 × Int32)
  deriving DecidableEq, Repr

structure LookupResp where
  lookupPathLen : UInt64
  lookupPath : List UInt8
  deriving DecidableEq, Repr

structure ReadResp where
  count : UInt64
  eof : Int32
  data : Data
  deriving DecidableEq, Repr

structure WriteResp where
  fileCreateOk : UInt32
  fileWc : UInt32
  deriving DecidableEq, Repr

/-- The member of the union of `sstack_nfs_command_struct`. -/
inductive CommandFields
  | bare (c : BareCommand)
  | setattr (attr : FileAttribute)
  | lookup (dir what : FileHandle)
  | access (mode : UInt32)
  | read (cmd : ReadCmd)
  | write (cmd : WriteCmd)
  | create (cmd : CreateCmd)
  | mkdir (mode : UInt32)
  | symlink (newPath : FileHandle)
  | remove (cmd : RemoveCmd)
  | rmdir (cmd : RemoveCmd)
  | rename (newPath : FileHandle)
  | commit (cmd : CommitCmd)
  | esureCode (cmd : EsureCodeCmd)
  deriving DecidableEq, Repr

/-- The member of the union of `sstack_nfs_response_struct`. A `struct stat` is its bytes. -/
inductive ResponseFields
  | bare (r : BareResponse)
  | getattr (stbuf : List UInt8)
  | lookup (resp : LookupResp)
  | access (access : UInt32)
  | readlink (realFile : FileHandle)
  | read (resp : ReadResp)
  | write (resp : WriteResp)
  | create (resp : WriteResp)
  deriving DecidableEq, Repr

/-- The command of a payload with the structure that it selects. -/
inductive Body
  | storage (c : StorageCommand) (storage : Storage)
  | command (extentHandle : FileHandle) (fields : CommandFields)
  | response (commandOk : Int32) (handle : UInt64) (fields : ResponseFields)
  deriving DecidableEq, Repr

structure PayloadHdr where
  sequence : UInt32
  payloadLen : UInt32
  jobId : UInt64
  priority : Int32
  arg : UInt64
  deriving DecidableEq, Repr

structure Payload where
  hdr : PayloadHdr
  body : Body
  deriving DecidableEq, Repr

/-! The messages, as `unpack` gives them: what `jobs.proto` requires is there, the rest may be
missing. A field of type `bytes` has no zero behind it. -/
namespace Proto

structure PayloadHdr where
  sequence : UInt32
  payloadLen : UInt32
  jobId : Int32
  priority : Int32
  arg : UInt64
  deriving DecidableEq, Repr

structure Address where
  protocol : UInt32
  ipv4Address : Option (List UInt8)
  ipv6Address : Option (List UInt8)
  deriving DecidableEq, Repr

structure FileName where
  nameLen : UInt32
  name : List UInt8
  proto : UInt32
  address : Address
  deriving DecidableEq, Repr

structure Storage where
  path : List UInt8
  mountPoint : List UInt8
  weight : UInt32
  nblocks : UInt64
  protocol : UInt32
  numChunksWritten : UInt64
  address : Address
  deriving DecidableEq, Repr

/-- The fields of `sstack_file_attribute_t` that the receiver reads. -/
structure FileAttribute where
  mode : UInt32
  numLink : UInt32
  uid : UInt32
  deriving DecidableEq, Repr

structure Attribute where
  ver : UInt32
  aQoslevel : UInt32
  aIshidden : UInt32
  aNumreplicas : UInt32
  aEnableDr : UInt32
  deriving DecidableEq, Repr

structure PolicyEntry where
  peAttr : Attribute
  peNumPlugins : UInt32
  peRefcount : UInt32
  peLock : UInt32
  pstIndex : UInt32
  deriving DecidableEq, Repr

structure Data where
  dataLen : UInt64
  dataBuf : List UInt8
  deriving DecidableEq, Repr

structure ReadCmd where
  inodeNo : UInt64
  offset : UInt64
  count : UInt64
  readEcode : Int32
  pe : PolicyEntry
  deriving DecidableEq, Repr

structure WriteCmd where
  inodeNo : UInt64
  offset : UInt64
  count : UInt64
  data : Data
  pe : PolicyEntry
  deriving DecidableEq, Repr

structure CreateCmd where
  inodeNo : UInt64
  mode : UInt32
  data : Data
  pe : PolicyEntry
  deriving DecidableEq, Repr

structure LookupCmd where
  dir : FileName
  what : FileName
  deriving DecidableEq, Repr

structure RemoveCmd where
  pathLen : UInt32
  path : List UInt8
  deriving DecidableEq, Repr

structure CommandStruct where
  extentHandle : Option FileName
  setattrCmd : Option FileAttribute
  lookupCmd : Option LookupCmd
  accessCmd : Option UInt32
  readCmd : Option ReadCmd
  writeCmd : Option WriteCmd
  createCmd : Option CreateCmd
  mkdirCmd : Option UInt32
  symlinkCmd : Option FileName
  renameCmd : Option FileName
  removeCmd : Option RemoveCmd
  commitCmd : Option CommitCmd
  deriving DecidableEq, Repr

structure LookupResp where
  lookupPathLen : UInt32
  lookupPath : List UInt8
  deriving DecidableEq, Repr

structure ReadResp where
  count : UInt64
  eof : Int32
  data : Data
  deriving DecidableEq, Repr

/-- `getattrResp` is the structure that protobuf-c makes of a `stat`, as it lies in memory. -/
structure ResponseStruct where
  commandOk : UInt32
  handle : UInt64
  getattrResp : Option (List UInt8)
  lookupResp : Option LookupResp
  accessResp : Option UInt32
  readlinkResp : Option FileName
  readResp : Option ReadResp
  writeResp : Option WriteResp
  createResp : Option WriteResp
  deriving DecidableEq, Repr

structure Payload where
  hdr : PayloadHdr
  command : Command
  storage : Option Storage
  commandStruct : Option CommandStruct
  responseStruct : Option ResponseStruct
  deriving DecidableEq, Repr

end Proto
end SeamlessStack.Serdes
