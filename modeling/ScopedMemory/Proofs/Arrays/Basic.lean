import ScopedMemory.Proofs.Session.Run

namespace ScopedMemory

def Bytes.splice (cells : Bytes) (start : Nat) (bytes : Bytes) : Bytes :=
  cells.take start ++ bytes ++ cells.drop (start + bytes.length)

def Bytes.zeros (size : Nat) : Bytes := List.replicate size 0

structure View where
  array : Nat
  offset : Nat
  length : Nat

def View.narrow (v : View) (offset length : Nat) : View := ⟨v.array, v.offset + offset, length⟩

/-- One array for each allocation, in the order of the allocations, with the parts that names and
actions left for the ends of scopes stand for. -/
structure ArrayStore where
  arrays : List Bytes
  named : Name → Option View
  /-- By the tickets of the actions. -/
  targets : Nat → Option View

namespace ArrayStore

def empty : ArrayStore := ⟨[], fun _ => none, fun _ => none⟩

def contents (A : ArrayStore) (v : View) : Bytes :=
  (((A.arrays[v.array]?).getD []).drop v.offset).take v.length

def write (A : ArrayStore) (v : View) (offset : Nat) (bytes : Bytes) : ArrayStore :=
  { A with arrays := A.arrays.modify v.array (·.splice (v.offset + offset) bytes) }

def writeTo (A : ArrayStore) (name : Name) (offset : Nat) (bytes : Bytes) : ArrayStore :=
  match A.named name with
  | some v => A.write v offset bytes
  | none => A

def bind (A : ArrayStore) (name : Name) (v? : Option View) : ArrayStore :=
  { A with named := fun n => if n = name then v? else A.named n }

def keep (A : ArrayStore) (name? : Option Name) (v? : Option View) : ArrayStore :=
  match name? with
  | some name => A.bind name v?
  | none => A

def extend (A : ArrayStore) (sizes : List Nat) : ArrayStore :=
  { A with arrays := A.arrays ++ sizes.map .zeros }

def allocate (A : ArrayStore) (size : Nat) (bytes : Bytes) (name? : Option Name) : ArrayStore :=
  (((A.extend [size]).write ⟨A.arrays.length, 0, size⟩ 0 bytes).keep name?
    (some ⟨A.arrays.length, 0, size⟩))

theorem contents_write_of_ne (A : ArrayStore) {v w : View} (h : v.array ≠ w.array) (offset : Nat)
    (bytes : Bytes) : (A.write v offset bytes).contents w = A.contents w := by
  simp only [contents, write, List.getElem?_modify, if_neg h, Option.map_eq_map, Option.map_id_fun',
    id_eq]

end ArrayStore

/-! ### Calls on arrays -/

/-- A call that makes no region of an address and has nothing to do with variadic arguments. -/
def Call.Plain : Call → Prop
  | .region (.adopt ..) | .scope (.resolve ..) | .variadic _ => False
  | _ => True

instance : DecidablePred Call.Plain := fun c => by
  cases c with
  | region c => cases c <;> unfold Call.Plain <;> infer_instance
  | scope c => cases c <;> unfold Call.Plain <;> infer_instance
  | _ =>
    unfold Call.Plain
    infer_instance

def Move.Plain : Move → Prop
  | call _ c => c.Plain
  | chore _ => True

theorem Call.Plain.not_adopts {c : Call} (h : c.Plain) : ¬ c.Adopts := by
  cases c with
  | region c =>
    cases c with
    | adopt => exact h.elim
    | _ => exact id
  | variadic c => exact h.elim
  | _ => exact id

theorem plain_movesOf (system : SystemAllocator) {calls : List (Thread × Call)}
    (h : ∀ p ∈ calls, p.2.Plain) : ∀ m ∈ movesOf system calls, m.Plain := by
  intro m hm
  obtain ⟨p, hp, rfl⟩ := List.mem_map.mp (List.mem_reverse.mp hm)
  exact h p hp

def HandleCall.replay (A : ArrayStore) : HandleCall → ArrayStore
  | drop name => A.bind name none
  | clone name copy => A.bind copy (A.named name)
  | info _ | describe _ | misuse _ => A

/-- An action that fills a region gets its part under the next ticket. -/
def ScopeCall.replay (ticket : Nat) (A : ArrayStore) : ScopeCall → ArrayStore
  | create _ name | acquire _ name => A.bind name none
  | addAction _ _ (.fill region) =>
    { A with targets := fun k => if k = ticket then A.named region else A.targets k }
  | allocateNative size _ _ name? => A.allocate size.toNat [] name?
  | close _ | addAction .. | same .. | resolve .. => A

def RegionCall.replay (A : ArrayStore) : RegionCall → ArrayStore
  | slice region offset length name? =>
    A.keep name? ((A.named region).map (·.narrow offset.toNat length.toNat))
  | sliceFrom region offset name? =>
    A.keep name? ((A.named region).map fun v => v.narrow offset.toNat (v.length - offset.toNat))
  | write region offset bytes => A.writeTo region offset.toNat bytes
  | set layout offset region value => A.writeTo region offset.toNat (value.encode layout.order)
  | setAddress value region layout offset =>
    match Region.addressBytes layout value with
    | .ok bytes => A.writeTo region offset.toNat bytes
    | .error _ => A
  | copyFrom region source =>
    match A.named source with
    | some v => A.writeTo region 0 (A.contents v)
    | none => A
  | fill region value =>
    match A.named region with
    | some v => A.write v 0 (.replicate v.length value)
    | none => A
  | adopt .. | belongs .. | read .. | get .. | getAddress .. | contents .. => A

/-- A region that is recycled is the beginning of the same part each time. -/
def AllocationCall.replay (A : ArrayStore) (reply : Reply) : AllocationCall → ArrayStore
  | arena _ _ _ _ name | direct _ name | perRequest _ name => A.bind name none
  | recycling region name => A.bind name (A.named region)
  | allocate q allocator name? =>
    match q.dimensions, q.initial with
    | .ok (size, _), .ok bytes =>
      match A.named allocator with
      | some v => (A.write v 0 bytes).keep name? (some (v.narrow 0 size.toNat))
      | none => A.allocate size.toNat bytes name?
    | _, _ => A
  | allocateParallel _ size _ _ _ =>
    match reply with
    | .tally count => A.extend (.replicate count.served size.toNat)
    | _ => A

/-- What a call does to the arrays depends on its arguments and on whether it succeeds. -/
def Call.replay (ticket : Nat) (A : ArrayStore) : Call → Except Refusal Reply → ArrayStore
  | .handle (.misuse name), _ => A.bind name none
  | .handle c, .ok _ => c.replay A
  | .scope c, .ok _ => c.replay ticket A
  | .region c, .ok _ => c.replay A
  | .allocation c, .ok reply => c.replay A reply
  | _, _ => A

/-- An action that succeeds in filling its region fills its part. -/
def Chore.replay (ctx : Context) (σ : Store) (A : ArrayStore) : Chore → ArrayStore
  | perform ⟨ticket, .fill _ r⟩ =>
    match (r.fill 0xee).value? ctx (σ.note (.began ticket)), A.targets ticket with
    | some _, some v => A.write v 0 (.replicate v.length 0xee)
    | _, _ => A
  | _ => A

def ArrayStore.move (S : Session) (A : ArrayStore) : Move → ArrayStore
  | .call ctx c => c.replay S.store.tickets A (S.begin ctx c).1
  | .chore ctx =>
    match S.chores with
    | c :: _ => c.replay ctx S.store A
    | [] => A

/-- The arrays after the moves, of which the newest comes first. -/
def arraysOf : List Move → ArrayStore
  | [] => .empty
  | m :: past => (arraysOf past).move (play past) m

/-- What a call that reads answers if regions are parts of arrays. -/
def RegionCall.expected (A : ArrayStore) : RegionCall → Option Reply
  | read length region offset =>
    (A.named region).map fun v => .bytes (A.contents (v.narrow offset.toNat length.toNat))
  | get layout offset type region =>
    (A.named region).map fun v =>
      .scalar (.decode type layout.order (A.contents (v.narrow offset.toNat type.size)))
  | getAddress region layout offset =>
    match A.named region, Region.addressWidth layout with
    | some v, .ok w =>
      some (.address (Address.decode layout.order (A.contents (v.narrow offset.toNat w.bytes))))
    | _, _ => none
  | contents region => (A.named region).map fun v => .bytes (A.contents v)
  | _ => none

def RegionCall.Reads : RegionCall → Prop
  | read .. | get .. | getAddress .. | contents .. => True
  | _ => False

end ScopedMemory
