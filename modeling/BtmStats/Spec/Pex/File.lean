import BtmStats.Spec.Pex.AddrBook

/-!
# `BtmStats.Spec.Pex.File`: the address book in a file

The model of `p2p/pex/file.go`, without the save routine, and the calls of a book with
what they return. The file is its bytes, or none if it does not exist. What
`encoding/json` does is a parameter. A known address that it decodes has its two
addresses and one of the two types, as one that it encodes has. The error of `os.Open` on
a file that exists is left out.
-/

set_option autoImplicit false

namespace BtmStats.Spec.Pex

open Spec

/-- `addrBookJSON` -/
structure AddrBookJSON where
  key : Str
  addrs : List KnownAddress

/-- `json.MarshalIndent` and `Decode` at `addrBookJSON`. -/
structure BookJson where
  marshalIndent : AddrBookJSON → Except Err Str
  decode : Str → Except Err AddrBookJSON

namespace AddrBook

/-! ### Saving -/

/-- What `SaveToFile` encodes. `order` is the order of its iteration over `addrLookup`. -/
def saved (a : AddrBook) (order : IterOrder Nat) : Except Panic AddrBookJSON := do
  let addrs ← (order.apply a.addrLookup.pointers).mapM a.deref
  return ⟨a.key, addrs⟩

/-- `SaveToFile`: the file after the call, and the error. `writeErr` is the error of
`WriteFileAtomic`, which leaves the file as it was. -/
def saveToFile (json : BookJson) (a : AddrBook) (order : IterOrder Nat) (writeErr : Option Err)
    (file : Option Str) : Except Panic (Option Str × Option Err) := do
  let aJSON ← a.saved order
  match json.marshalIndent aJSON with
  | .error e => return (file, some e)
  | .ok rawDats =>
    match writeErr with
    | some e => return (file, some e)
    | none => return (some rawDats, none)

/-! ### Loading -/

/-- The inner loop of `loadFromFile`: the known address at `p` gets into the buckets. -/
def fileInBuckets (s : Str) (p : Nat) (bucketType : BucketType) :
    List Nat → AddrBook → Except Panic AddrBook
  | [], a => .ok a
  | bucketIndex :: rest, a => do
      let bucket ← a.getBucket bucketType bucketIndex
      fileInBuckets s p bucketType rest
        (a.setBucket bucketType bucketIndex (bucket.insert s p))

section
variable (env : Env)

/-- One round of the loop of `loadFromFile`. The decoded known address is a new object. -/
def loadKnown (a : AddrBook) (ka : KnownAddress) : Except Panic AddrBook := do
  let p := a.heap.length
  let a := { a with
    heap := a.heap ++ [ka], addrLookup := a.addrLookup.insert (env.str ka.addr) p }
  let a ← fileInBuckets (env.str ka.addr) p ka.bucketType ka.buckets a
  return a.addCount ka.bucketType 1

/-- `loadFromFile`. A file that does not exist is no error. -/
def loadFromFile (json : BookJson) (a : AddrBook) (file : Option Str) :
    Except Panic (AddrBook × Option Err) :=
  match file with
  | none => .ok (a, none)
  | some rawDats =>
    match json.decode rawDats with
    | .error e => .ok (a, some e)
    | .ok aJSON => do
        let a ← aJSON.addrs.foldlM (loadKnown env) { a with key := aJSON.key }
        return (a, none)

end

/-! ### Calls and what they return -/

/-- The calls on a book, those that only read included. -/
inductive Call where
  | op (op : Op)
  | getSelection (order : IterOrder Nat) (draws : Nat → Nat)
  | pickAddress (pickFromOldBucket : Bool) (order : IterOrder Nat) (draws : Nat → Nat) (fuel : Nat)
  | size
  | saved (order : IterOrder Nat)

/-- What a call returns. -/
inductive Reply where
  | done (err : Option Err)
  | selection (addrs : List NetAddress)
  | picked (addr : Option (Option NetAddress))
  | size (n : Int)
  | saved (aJSON : AddrBookJSON)

def call (env : Env) (a : AddrBook) : Call → Except Panic (AddrBook × Reply)
  | .op (.addAddress chance addr src) => do
      let (a, err) ← a.addAddress env chance addr src
      return (a, .done err)
  | .op op => do return (← a.step env op, .done none)
  | .getSelection order draws => do return (a, .selection (← a.getSelection order draws))
  | .pickAddress old order draws fuel => do
      return (a, .picked (← a.pickAddress old order draws fuel))
  | .size => .ok (a, .size a.size)
  | .saved order => do return (a, .saved (← a.saved order))

/-- The calls in order, with what they return. -/
def calls (env : Env) : AddrBook → List Call → Except Panic (AddrBook × List Reply)
  | a, [] => .ok (a, [])
  | a, c :: rest => do
      let (a, reply) ← a.call env c
      let (a, replies) ← calls env a rest
      return (a, reply :: replies)

end AddrBook

end BtmStats.Spec.Pex
