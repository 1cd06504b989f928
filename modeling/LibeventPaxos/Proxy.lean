import LibeventPaxos.Database

/-!
`proxy/proxy.c`: how the proxy follows its consensus component through the database they share.
The component announces the keys it delivers; the proxy reads the keys one after the other and
hands what is stored under them to its server.
-/
namespace LibeventPaxos

/-- The fields of `proxy_node` that follow the database. `actions` is a history: the calls of
`do_action_to_server`, each with the key it was read under. -/
structure Proxy where
  curRec : DbKey
  highestRec : DbKey
  actions : List (DbKey × List UInt8)
  deriving DecidableEq, Repr

namespace Proxy

/-- `proxy_init` clears the structure. -/
def init : Proxy := ⟨0, 0, []⟩

def updateState (proxy : Proxy) (recNo : DbKey) : Proxy :=
  { proxy with highestRec := if proxy.highestRec < recNo then recNo else proxy.highestRec }

def crossView (proxy : Proxy) : Proxy :=
  { proxy with curRec := ((proxy.curRec >>> 32 + 1) <<< 32) + 1 }

def doActionToServer (proxy : Proxy) (data : List UInt8) : Proxy :=
  { proxy with actions := proxy.actions ++ [(proxy.curRec, data)] }

/-- The body of the loop of `real_do_action`, which runs while `Behind` holds. -/
def doActionOnce (junk : DbKey → RequestRecord) (db : Database) (proxy : Proxy) : Proxy :=
  match db.retrieveRecord proxy.curRec with
  | none => proxy.crossView
  | some value =>
    let proxy' := proxy.doActionToServer (value.asRequest (junk proxy.curRec)).data
    { proxy' with curRec := proxy.curRec + 1 }

def Behind (proxy : Proxy) : Prop := proxy.curRec ≤ proxy.highestRec

instance (proxy : Proxy) : Decidable proxy.Behind :=
  inferInstanceAs (Decidable (proxy.curRec ≤ proxy.highestRec))

/-! ## Keys -/

/-- The first request of the next view. -/
theorem crossView_curRec (proxy : Proxy) (room : proxy.curRec.toNat / 4294967296 < 4294967295) :
    proxy.crossView.curRec.toNat = (proxy.curRec.toNat / 4294967296 + 1) * 4294967296 + 1 := by
  have key_lt := proxy.curRec.toNat_lt
  simp only [crossView, UInt64.toNat_add, UInt64.toNat_shiftLeft, UInt64.toNat_shiftRight,
    UInt64.reduceToNat, Nat.shiftRight_eq_div_pow, Nat.shiftLeft_eq, Nat.reduceMod, Nat.reducePow]
  omega

@[simp] theorem updateState_curRec (proxy : Proxy) (recNo : DbKey) :
    (proxy.updateState recNo).curRec = proxy.curRec := by simp only [updateState]

theorem updateState_highestRec (proxy : Proxy) (recNo : DbKey) :
    (proxy.updateState recNo).highestRec = proxy.highestRec ∨
      (proxy.updateState recNo).highestRec = recNo := by
  simp only [updateState]
  split
  next => exact .inr rfl
  next => exact .inl rfl

@[simp] theorem doActionOnce_highestRec (junk : DbKey → RequestRecord) (db : Database)
    (proxy : Proxy) : (proxy.doActionOnce junk db).highestRec = proxy.highestRec := by
  cases found : db.retrieveRecord proxy.curRec with
  | none => simp only [doActionOnce, found, crossView]
  | some value => simp only [doActionOnce, found, doActionToServer]

/-- A key that holds nothing ends the view. -/
theorem doActionOnce_none (junk : DbKey → RequestRecord) (db : Database) (proxy : Proxy)
    (absent : db.retrieveRecord proxy.curRec = none) :
    proxy.doActionOnce junk db = proxy.crossView := by
  simp only [doActionOnce, absent]

theorem doActionOnce_some (junk : DbKey → RequestRecord) (db : Database) (proxy : Proxy)
    (value : DbValue) (found : db.retrieveRecord proxy.curRec = some value) :
    (proxy.doActionOnce junk db).curRec = proxy.curRec + 1 := by
  simp only [doActionOnce, found]

end Proxy

end LibeventPaxos
