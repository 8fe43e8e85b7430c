import ScopedMemory.Proofs.Session.Through
import ScopedMemory.Proofs.Variadic.List

namespace ScopedMemory

open Turn

variable {R : Session → Session → Prop} {S T : Session} {ctx : Context}

def Handle.IsVariadic : Handle → Prop
  | builder _ | list _ => True
  | _ => False

namespace Session

/-- The relation does not notice how scopes and memory change, nor what names stand for other than
lists and builders. -/
structure Lenient (R : Session → Session → Prop) : Prop where
  store (S : Session) {τ : Store} (h : τ.arenas = S.store.arenas) : R S { S with store := τ }
  chores (S : Session) (cs : List Chore) : R S { S with chores := cs }
  put (S : Session) (name : Name) {h : Handle} (hh : ¬ h.IsVariadic) :
    R S { S with handles := S.handles.put name h }
  erase (S : Session) (name : Name) : R S { S with handles := S.handles.erase name }

namespace Lenient

variable [Trans R R R] (hR : Lenient R)

include hR

theorem kept (S : Session) (name? : Option Name) {h : Handle} (hh : ¬ h.IsVariadic) :
    R S (S.kept name? h) := by
  cases name? with
  | none => exact hR.chores S _
  | some name => exact Trans.trans (r := R) (s := R) (hR.put S name hh) (hR.chores _ _)

theorem lost [Std.Refl R] (S : Session) (name : Name) : R S (S.lost name) := by
  unfold Session.lost
  split
  next => exact Trans.trans (r := R) (s := R) (hR.erase S name) (hR.chores _ _)
  next => exact Std.Refl.refl S

end Lenient
end Session

namespace Turn

variable {α : Type} {x : Operation α} (hR : Session.Lenient R)

include hR

theorem through_lift
    (hx : x.Leads ctx S.store (fun _ τ => τ.arenas = S.store.arenas)
      fun τ => τ.arenas = S.store.arenas) : (lift x).Through R ctx S := by
  refine (leads_lift hx).imp (fun _ T hT => ?_) fun T hT => ?_
  · obtain ⟨τ, hτ, rfl⟩ := hT
    exact hR.store S hτ
  · obtain ⟨τ, hτ, rfl⟩ := hT
    exact hR.store S hτ

/-- An operation that gives a value and changes nothing. -/
theorem through_look {P : α → Store → Prop}
    (hx : x.Leads ctx S.store P (· = S.store)) (hP : ∀ a τ, P a τ → τ = S.store) :
    (lift x).Through R ctx S :=
  through_lift hR (hx.imp (fun a τ h => congrArg Store.arenas (hP a τ h)) fun _ h =>
    congrArg Store.arenas h)

/-- An operation that writes to memory. -/
theorem through_memory {P : α → Store → Prop}
    (hx : x.Leads ctx S.store P (· = S.store)) (hP : ∀ a τ, P a τ → ∃ m, τ = S.store.setMemory m) :
    (lift x).Through R ctx S := by
  refine through_lift hR (hx.imp (fun a τ h => ?_) fun _ h => congrArg Store.arenas h)
  obtain ⟨m, rfl⟩ := hP a τ h
  rfl

theorem through_leave (chores : List Chore) : (leave chores).Through R ctx S :=
  leads_leave.imp (fun _ _ h => h ▸ hR.chores S _) fun _ h => h.elim

theorem through_discard (h : Handle) : (discard h).Through R ctx S :=
  leads_discard.imp (fun _ _ h => h ▸ hR.chores S _) fun _ h => h.elim

theorem through_forget (name : Name) : (forget name).Through R ctx S :=
  leads_forget.imp (fun _ _ h => h ▸ hR.erase S name) fun _ h => h.elim

variable [Trans R R R]

theorem through_lose [Std.Refl R] (name : Name) : (lose name).Through R ctx S :=
  leads_lose.imp (fun _ _ h => h ▸ hR.lost S name) fun _ h => h.elim

theorem through_keep (name? : Option Name) {h : Handle} (hh : ¬ h.IsVariadic) :
    (keep name? h).Through R ctx S :=
  leads_keep.imp (fun _ _ h => h ▸ hR.kept S name? hh) fun _ h => h.elim

theorem through_rename (name : Name) {h : Handle} (hh : ¬ h.IsVariadic) :
    (rename name h).Through R ctx S :=
  leads_rename.imp (fun _ _ h => h ▸ hR.kept S (some name) hh) fun _ h => h.elim

theorem through_keepRegion (name? : Option Name) (adopted : Bool) (r : Region) :
    (keepRegion name? adopted r).Through R ctx S :=
  leads_keepRegion.imp (fun _ _ h => h.2 ▸ hR.kept S name? id) fun _ h => h.elim

theorem through_keepHandle (name : Name) {h : Handle} (hh : ¬ h.IsVariadic) :
    (keepHandle name h).Through R ctx S :=
  leads_keepHandle.imp (fun _ _ h => h.2 ▸ hR.kept S (some name) hh) fun _ h => h.elim

end Turn

/-! ### Calls that concern neither arenas nor lists -/

section

variable [Std.Refl R] [Trans R R R] (hR : Session.Lenient R)

include hR

theorem HandleCall.through (c : HandleCall) : c.perform.Through R ctx S := by
  cases c with
  | info name =>
    exact through_find.bind fun _ _ => through_get.bind fun _ _ =>
      through_read.bind fun _ _ => through_pure _
  | drop name =>
    exact through_find.bind fun _ _ => (through_forget hR name).bind fun _ _ =>
      (through_discard hR _).bind fun _ _ => through_pure _
  | clone name copy =>
    refine leads_bind_find (Std.Refl.refl S) fun h hn => ?_
    obtain ⟨_, hc⟩ := Option.filter_eq_some_iff.mp hn
    refine (through_rename hR copy fun hv => ?_).bind fun _ _ => through_pure _
    cases h with
    | builder b => cases hc
    | list v => cases hc
    | _ => exact hv
  | describe name => exact through_find.bind fun _ _ => through_pure _
  | misuse name => exact (through_lose hR name).bind fun _ _ => through_throw _

theorem ScopeCall.through (c : ScopeCall) : c.perform.Through R ctx S := by
  cases c with
  | create kind name =>
    have hx : (lift (ScopeId.create kind)).Through R ctx S := by
      refine through_lift hR ((ScopeId.leads_create kind).imp (fun _ τ h => ?_) fun _ h => h.elim)
      obtain ⟨_, _, rfl⟩ | ⟨_, _, rfl⟩ := h
      · rfl
      · rfl
    exact hx.bind fun _ _ => through_get.bind fun _ _ => through_read.bind fun _ _ =>
      (through_rename hR name id).bind fun _ _ => through_pure _
  | close scope =>
    refine through_find.bind fun s U => Through.bind ?_ fun _ _ =>
      (through_leave hR _).bind fun _ _ => through_pure _
    refine through_lift hR ((ScopeId.leads_close s).imp (fun _ τ h => ?_) fun _ h => ?_)
    · obtain ⟨_, _, _, _, rfl⟩ := h
      rfl
    · exact congrArg Store.arenas h
  | addAction scope label plan =>
    refine through_find.bind fun s _ => Through.bind ?_ fun a U => Through.bind ?_ fun _ _ =>
      through_pure _
    · cases plan with
      | say => exact through_pure _
      | _ => exact through_find.bind fun _ _ => through_pure _
    · refine through_lift hR ((ScopeId.leads_addAction s a).imp (fun _ τ h => ?_) fun _ h => ?_)
      · rw [h.2]
        rfl
      · exact congrArg Store.arenas h
  | acquire scope name =>
    refine through_find.bind fun s U => Through.bind ?_ fun _ _ =>
      (through_rename hR name id).bind fun _ _ => through_pure _
    refine through_lift hR ((ScopeId.leads_acquire s).imp (fun _ τ h => ?_) fun _ h => ?_)
    · rw [h.2]
      rfl
    · exact congrArg Store.arenas h
  | same first second =>
    exact through_find.bind fun _ _ => through_find.bind fun _ _ => through_pure _
  | allocateNative size align scope name? =>
    refine through_find.bind fun s U => Through.bind ?_ fun r _ =>
      through_keepRegion hR name? false r
    refine through_lift hR ((ScopeId.leads_allocateNative s size align).imp (fun _ τ h => ?_)
      fun _ h => ?_)
    · obtain ⟨_, _, _, _, rfl⟩ := h
      rfl
    · exact congrArg Store.arenas h
  | resolve start length scope name? =>
    refine through_find.bind fun s U => Through.bind
      (through_look hR (VariadicList.leads_resolve s start length) fun _ _ h => h.1) fun r? _ => ?_
    cases r? with
    | none => exact through_pure _
    | some r => exact through_keepRegion hR name? false r

theorem RegionCall.through (c : RegionCall) : c.perform.Through R ctx S := by
  cases c with
  | adopt start length scope name? =>
    exact through_find.bind fun _ _ => (through_look hR Region.leads_ofAddress
      fun _ _ h => h.2.2).bind fun r _ => through_keepRegion hR name? true r
  | slice region offset length name? =>
    exact through_find.bind fun p _ => (through_look hR Region.leads_slice
      fun _ _ h => h.2.2).bind fun r _ => through_keepRegion hR name? p.2 r
  | sliceFrom region offset name? =>
    refine through_find.bind fun p _ => (through_look hR Region.leads_sliceFrom
      fun _ _ h => ?_).bind fun r _ => through_keepRegion hR name? p.2 r
    obtain ⟨_, _, _, _, hτ⟩ := h
    exact hτ
  | belongs region scope =>
    exact through_find.bind fun _ _ => through_find.bind fun _ _ => through_pure _
  | read length region offset =>
    exact through_find.bind fun _ _ => (through_look hR Region.leads_read
      fun _ _ h => h.2.2).bind fun _ _ => through_pure _
  | write region offset bytes =>
    exact through_find.bind fun _ _ => (through_memory hR Region.leads_write
      fun _ _ h => ⟨_, h.2⟩).bind fun _ _ => through_pure _
  | get layout offset type region =>
    exact through_find.bind fun _ _ => (through_look hR Region.leads_get
      fun _ _ h => h.2.2).bind fun _ _ => through_pure _
  | set layout offset region value =>
    exact through_find.bind fun _ _ => (through_memory hR Region.leads_set
      fun _ _ h => ⟨_, h.2.2⟩).bind fun _ _ => through_pure _
  | getAddress region layout offset =>
    refine through_find.bind fun _ _ => (through_look hR Region.leads_getAddress
      fun _ _ h => ?_).bind fun _ _ => through_pure _
    obtain ⟨_, _, _, _, hτ⟩ := h
    exact hτ
  | setAddress value region layout offset =>
    refine through_find.bind fun _ _ => (through_memory hR Region.leads_setAddress
      fun _ _ h => ?_).bind fun _ _ => through_pure _
    obtain ⟨_, _, _, hτ⟩ := h
    exact ⟨_, hτ⟩
  | copyFrom region source =>
    exact through_find.bind fun _ _ => through_find.bind fun _ _ =>
      (through_memory hR Region.leads_copyFrom fun _ _ h => ⟨_, h.2.2⟩).bind fun _ _ =>
        through_pure _
  | fill region value =>
    exact through_find.bind fun _ _ => (through_memory hR Region.leads_fill
      fun _ _ h => ⟨_, h.2⟩).bind fun _ _ => through_pure _
  | contents region =>
    refine through_find.bind fun _ _ => (through_look hR Region.leads_contents
      fun _ _ h => h.2).bind fun bytes? _ => ?_
    cases bytes? with
    | none => exact through_throw _
    | some bytes => exact through_pure _

end
end ScopedMemory
