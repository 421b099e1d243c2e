import CoreAndroid.Handle

/-! The record of a thread in thread_android.c, and the calls that find it through its
handle and read or write it. -/
namespace CoreAndroid.Thread

inductive DetachState where
  | join
  | detach
  deriving DecidableEq, Repr

/-- The fields of `ANDROID_THREAD` whose values the calls go by. -/
structure AndroidThread where
  deleteMe : Bool
  detachstate : DetachState
  waitSet : Handle
  deriving DecidableEq, Repr

/-- The calls of `ofc_thread_detach_impl`, `ofc_thread_delete_impl`,
`ofc_thread_set_waitset_impl` and `ofc_thread_is_deleting_impl`. -/
inductive Op where
  | detach
  | delete
  | setWaitset (waitSet : Handle)
  | isDeleting
  deriving DecidableEq, Repr

inductive CallPc where
  | idle
  | lock (op : Op)
  | detachStore
  | detachThread
  | deleteStore
  | deleteTest
  | deleteWake
  | setWaitset (waitSet : Handle)
  | isDeleting
  | unlock (ret : Bool)
  deriving DecidableEq, Repr

def Op.locked : Op → CallPc
  | .detach => .detachStore
  | .delete => .deleteStore
  | .setWaitset waitSet => .setWaitset waitSet
  | .isDeleting => .isDeleting

def CallPc.holds : CallPc → Bool
  | .idle | .lock _ | .unlock _ => false
  | _ => true

def access (record : AndroidThread) : CallPc → AndroidThread × CallPc
  | .detachStore => ({ record with detachstate := .detach }, .detachThread)
  | .detachThread => (record, .unlock false)
  | .deleteStore => ({ record with deleteMe := true }, .deleteTest)
  | .deleteTest =>
      (record, if record.waitSet ≠ handleNull then .deleteWake else .unlock false)
  -- the wake goes to the wait set
  | .deleteWake => (record, .unlock false)
  | .setWaitset waitSet => ({ record with waitSet := waitSet }, .unlock false)
  | .isDeleting => (record, .unlock record.deleteMe)
  | pc => (record, pc)

end CoreAndroid.Thread
