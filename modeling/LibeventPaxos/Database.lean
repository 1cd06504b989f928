import Mathlib.Logic.Function.Basic
import LibeventPaxos.Common

/-!
The key-value database that the consensus component, the election and the proxy share
(`db/db-interface.c`), and the three kinds of value stored in it.
-/
namespace LibeventPaxos

/-- `request_record`; `data_size` is the length of `data`. -/
structure RequestRecord where
  createdTime : TimeVal
  isClosed : UInt8
  bitMap : UInt64
  data : List UInt8
  deriving DecidableEq, Repr

/-- `acceptor_record`; proposal numbers are `pnum_t`. -/
structure AcceptorRecord where
  highestSeenPnum : Int
  acceptedPnum : Int
  content : NodeId
  deriving DecidableEq, Repr

/-- Three 64-bit words, as many bytes as a `view`. -/
structure ViewBytes where
  word0 : UInt64
  word1 : UInt64
  word2 : UInt64
  deriving DecidableEq, Repr

inductive DbValue where
  | request (record : RequestRecord)
  | view (bytes : ViewBytes)
  | acceptor (record : AcceptorRecord)
  deriving DecidableEq, Repr

abbrev Database := DbKey → Option DbValue

namespace Database

def empty : Database := fun _ => none

/-- A `store_record` call that succeeds; one that fails leaves the database as it was. -/
def storeRecord (db : Database) (key : DbKey) (value : DbValue) : Database :=
  Function.update db key (some value)

def retrieveRecord (db : Database) (key : DbKey) : Option DbValue := db key

def deleteRecord (db : Database) (key : DbKey) : Database := Function.update db key none

@[simp] theorem retrieveRecord_empty (key : DbKey) : empty.retrieveRecord key = none := rfl

theorem retrieveRecord_storeRecord (db : Database) (key other : DbKey) (value : DbValue) :
    (db.storeRecord key value).retrieveRecord other =
      if other = key then some value else db.retrieveRecord other :=
  Function.update_apply db key (some value) other

theorem retrieveRecord_deleteRecord (db : Database) (key other : DbKey) :
    (db.deleteRecord key).retrieveRecord other =
      if other = key then none else db.retrieveRecord other :=
  Function.update_apply db key none other

@[simp] theorem retrieveRecord_storeRecord_self (db : Database) (key : DbKey) (value : DbValue) :
    (db.storeRecord key value).retrieveRecord key = some value := by
  rw [retrieveRecord_storeRecord, if_pos rfl]

end Database

/-! ## Reading a value as a type -/

/-- The bytes of a value read as a `request_record`. The other two kinds are shorter than its
header, so the read runs past them and `junk` stands for what memory holds there. -/
def DbValue.asRequest (junk : RequestRecord) : DbValue → RequestRecord
  | .request record => record
  | .view _ => junk
  | .acceptor _ => junk

/-- Low and high half of a 64-bit word, in the order they lie in memory. -/
def lowHalf (word : Int) : UInt32 := UInt32.ofNat (word % 4294967296).toNat

def highHalf (word : Int) : UInt32 := UInt32.ofNat (word / 4294967296 % 4294967296).toNat

/-- The first eight bytes of a value read as the two fields of a `view_boundary` that
`try_to_execute` looks at. -/
def DbValue.asBoundary : DbValue → ViewStamp
  | .request record => ⟨lowHalf record.createdTime.tvSec, highHalf record.createdTime.tvSec⟩
  | .view bytes => ⟨lowHalf bytes.word0.toNat, highHalf bytes.word0.toNat⟩
  | .acceptor record => ⟨lowHalf record.highestSeenPnum, highHalf record.highestSeenPnum⟩

end LibeventPaxos
