import ScopedMemory.Proofs.Session.Run
import ScopedMemory.Proofs.Variadic.Reading

namespace ScopedMemory

open Turn

variable {system : SystemAllocator} {strict : Prop} {G : List Region} {S : Session}
  {ctx : Context} {b : VariadicBuilder} {name : Name}

def ArgumentSource.value? (S : Session) : ArgumentSource → Option ArgumentValue
  | int bits => some (.int bits)
  | long bits => some (.long bits)
  | double bits => some (.double bits)
  | address a => some (.address a)
  | segment region => (S.region? region).map fun p => .segment p.1

/-- The call builds a list as the builder does, and names it. -/
def Call.Builds (S : Session) (b : VariadicBuilder) (name : Name) : Call → Prop
  | .variadic (.build source target) => S.builder? source = some b ∧ target = name
  | .variadic (.make arguments home convention target) =>
    S.scope? home = some b.scope ∧ convention = b.convention ∧ target = name ∧
      arguments.map (fun arg => (arg.2.value? S).map (Argument.mk arg.1)) = b.arguments.map some
  | _ => False

theorem ArgumentSource.leads_value (source : ArgumentSource) :
    source.resolve.Leads ctx S (fun v T => source.value? S = some v ∧ T = S) (· = S) := by
  cases source with
  | segment region =>
    refine leads_find.bind fun p T hT => ?_
    obtain ⟨hn, rfl⟩ := hT
    refine leads_pure ⟨?_, rfl⟩
    simp only [value?, hn, Option.map_some]
  | _ => exact leads_pure ⟨rfl, rfl⟩

theorem ArgumentSource.leads_values (arguments : List (Layout × ArgumentSource)) :
    (arguments.mapM fun arg => return (arg.1, ← arg.2.resolve) :
      Turn (List (Layout × ArgumentValue))).Leads ctx S
        (fun args T => arguments.map (fun arg => (arg.2.value? S).map (Argument.mk arg.1)) =
          args.map (fun arg => some (Argument.mk arg.1 arg.2)) ∧ T = S) (· = S) := by
  induction arguments with
  | nil => exact leads_pure ⟨rfl, rfl⟩
  | cons arg arguments ih =>
    rw [List.mapM_cons]
    refine Leads.bind (P := fun p T => p.1 = arg.1 ∧ arg.2.value? S = some p.2 ∧ T = S) ?_ ?_
    · refine arg.2.leads_value.bind fun v T hT => ?_
      obtain ⟨hv, rfl⟩ := hT
      exact leads_pure ⟨rfl, hv, rfl⟩
    · intro p T hT
      obtain ⟨hl, hv, rfl⟩ := hT
      refine ih.bind fun args U hU => ?_
      obtain ⟨hargs, rfl⟩ := hU
      refine leads_pure ⟨?_, rfl⟩
      rw [List.map_cons, List.map_cons, hargs, hv, hl]
      rfl

/-- A list is made of a builder that takes one argument after another. -/
theorem VariadicList.leads_make_build {σ : Store} (c : Convention) (s : ScopeId)
    (args : List (Layout × ArgumentValue)) :
    (VariadicList.make c s args).Leads ctx σ
      (fun v τ => (∀ arg ∈ args, Argument.Accepted ⟨arg.1, arg.2⟩ c) ∧
        (VariadicBuilder.build ⟨c, s, args.map fun arg => ⟨arg.1, arg.2⟩⟩).run ctx σ = .ok v τ)
      fun _ => True := by
  refine (VariadicBuilder.leads_create c s).chain (fun _ _ => trivial) fun b τ h => ?_
  obtain ⟨_, rfl, rfl⟩ := h
  refine (VariadicBuilder.leads_pushes args _).chain (fun _ _ => trivial) fun b ρ h => ?_
  obtain ⟨rfl, rfl, hacc⟩ := h
  exact Operation.leads_run.imp (fun v τ h => ⟨hacc, h⟩) fun _ h => h

theorem Session.list?_renamed (S : Session) (name : Name) (v : VariadicList) :
    (S.renamed name (.list v)).list? name = some v := by
  unfold list? renamed
  rw [HandleTable.find?_put, if_pos rfl]

theorem Call.leads_builds (h : S.Sound system strict G) {c : Call} (hc : c.Builds S b name) :
    c.perform.Leads ctx S
      (fun _ T => ∃ v, T.list? name = some v ∧ b.build.run ctx S.store = .ok v T.store ∧
        ∀ arg ∈ b.arguments, arg.Accepted b.convention)
      fun _ => True := by
  have hbuilt : ∀ {x : Operation VariadicList} (T : Session), T.store = S.store →
      (x.Leads ctx S.store (fun v τ => b.build.run ctx S.store = .ok v τ ∧
        ∀ arg ∈ b.arguments, arg.Accepted b.convention) fun _ => True) →
      (do keepList name (← lift x) : Turn Reply).Leads ctx T
        (fun _ U => ∃ v, U.list? name = some v ∧ b.build.run ctx S.store = .ok v U.store ∧
          ∀ arg ∈ b.arguments, arg.Accepted b.convention) fun _ => True := by
    intro x T hT hx
    rw [← hT] at hx
    refine (leads_lift hx).chain (fun _ _ => trivial) fun v U hU => ?_
    obtain ⟨τ, ⟨hrun, hacc⟩, rfl⟩ := hU
    refine leads_keepList.imp (fun _ V hV => ?_) fun _ _ => trivial
    rw [hV.2]
    rw [hT] at hrun
    exact ⟨v, Session.list?_renamed _ _ _, hrun, hacc⟩
  cases c with
  | variadic c =>
    cases c with
    | build source target =>
      obtain ⟨hb, rfl⟩ := hc
      refine leads_bind_find trivial fun b' hn => ?_
      obtain rfl := Option.some.inj (hb.symm.trans hn)
      refine leads_forget.chain (fun _ hf => hf.elim) fun _ U hU => ?_
      subst hU
      refine leads_discard.chain (fun _ hf => hf.elim) fun _ U hU => ?_
      subst hU
      refine hbuilt _ rfl (Operation.leads_run.imp (fun v τ hr => ⟨hr, ?_⟩) fun _ h => h)
      exact (h.of_builder? hb).builder b rfl
    | make arguments scope convention target =>
      obtain ⟨hs, rfl, rfl, hargs⟩ := hc
      refine (ArgumentSource.leads_values arguments).chain (fun _ _ => trivial) fun args T hT => ?_
      obtain ⟨hval, rfl⟩ := hT
      refine leads_bind_find trivial fun s hn => ?_
      obtain rfl := Option.some.inj (hs.symm.trans hn)
      have hb : b.arguments = args.map fun arg => ⟨arg.1, arg.2⟩ := by
        have hsome := hargs.symm.trans hval
        have hmap : args.map (fun arg => some (Argument.mk arg.1 arg.2)) =
            (args.map fun arg => Argument.mk arg.1 arg.2).map some := by
          rw [List.map_map]
          rfl
        rw [hmap] at hsome
        exact (List.map_inj_right fun _ _ h => Option.some.inj h).mp hsome
      refine hbuilt _ rfl ((VariadicList.leads_make_build _ _ args).imp (fun v τ hr => ?_)
        fun _ h => h)
      obtain ⟨hacc, hrun⟩ := hr
      rw [← hb] at hrun
      refine ⟨hrun, fun arg harg => ?_⟩
      rw [hb] at harg
      obtain ⟨p, hp, rfl⟩ := List.mem_map.mp harg
      exact hacc p hp
    | _ => exact hc.elim
  | _ => exact hc.elim

/-- Without adopted memory the structs of a list to be built lie in blocks of their scopes. -/
theorem Call.Builds.inside (h : S.Sound system True G) {c : Call} (hc : c.Builds S b name)
    {arg : Argument} (harg : arg ∈ b.arguments) {r : Region} (hr : arg.region? = some r) :
    r.Inside S.store := by
  cases c with
  | variadic c =>
    cases c with
    | build source target =>
      exact (h.of_builder? hc.1).regions trivial r (List.mem_filterMap.mpr ⟨arg, harg, hr⟩)
    | make arguments scope convention target =>
      have hsome : some arg ∈ b.arguments.map some := List.mem_map.mpr ⟨arg, harg, rfl⟩
      rw [← hc.2.2.2] at hsome
      obtain ⟨⟨l, source⟩, _, he⟩ := List.mem_map.mp hsome
      obtain ⟨v, hv, rfl⟩ := Option.map_eq_some_iff.mp he
      cases source with
      | segment region =>
        obtain ⟨p, hp, rfl⟩ := Option.map_eq_some_iff.mp hv
        obtain rfl := Option.some.inj hr
        exact (h.of_region? hp).2 trivial
      | _ =>
        cases hv
        cases hr
    | _ => exact hc.elim
  | _ => exact hc.elim

/-- A list that a call builds in a run can be read from front to back at any later time of the run,
by a thread that may use its scope and as long as nothing is written to its memory, of which no byte
was in use before. The structs are taken from blocks of their scopes, as are all that were not made
of addresses. -/
theorem play_readsBack (hlaw : system.Lawful) {past : List Move}
    (hw : ∀ m ∈ past, m.Within system) (hctx : ctx.system.Within system) {c : Call}
    (hc : c.Builds (play past) b name) (hn : b.arguments ≠ [])
    (hsrc : ∀ arg ∈ b.arguments, ∀ r, arg.region? = some r → r.Inside (play past).store)
    {reply : Reply} (hr : ((play past).begin ctx c).1 = .ok reply) :
    ∃ v, (play (.call ctx c :: past)).list? name = some v ∧ v.after 0 = v ∧
      (v.after b.arguments.length).position.toNat =
        b.arguments.length * b.convention.slotSize.toNat ∧
      (∀ x, v.Uses (play (.call ctx c :: past)).store.memory b.arguments x →
        ¬ (play past).store.InUse x) ∧
      ∀ moves, (∀ m ∈ moves, m.Within system) →
        ∀ ctx' : Context, ctx'.system.Within system →
          (play (moves ++ .call ctx c :: past)).store.checkUsable ctx'.caller b.scope = .ok () →
            v.ReadsBack b.arguments (play past).store.memory
              (play (.call ctx c :: past)).store.memory ctx'
              (play (moves ++ .call ctx c :: past)).store := by
  have hS : (play past).Sound system False ((handedOut past).map (·.region)) :=
    play_sound hlaw.separate hw False.elim
  have hl : c.perform.Leads ctx (play past) _ _ := Call.leads_builds hS hc
  -- What the call leaves to be done touches neither the store nor the names.
  have hcall : ∃ v, (play (.call ctx c :: past)).list? name = some v ∧
      b.build.run ctx (play past).store = .ok v (play (.call ctx c :: past)).store ∧
      ∀ arg ∈ b.arguments, arg.Accepted b.convention := by
    have hplay : play (.call ctx c :: past) = ((play past).begin ctx c).2 := rfl
    rw [hplay]
    unfold Session.begin at hr ⊢
    cases hp : c.perform.run ctx (play past) with
    | ok reply' T =>
      have hT := hl.ok hp
      exact hT
    | error e T =>
      rw [hp] at hr
      cases hr
  obtain ⟨v, hv, hrun, hacc⟩ := hcall
  obtain ⟨buffer, copies, rfl, hb⟩ :=
    (VariadicBuilder.built_build hlaw.separate hS.store hS.ledger hctx hn hacc hsrc).ok hrun
  refine ⟨_, hv, VariadicList.after_zero _, ?_, fun x hx => ?_, ?_⟩
  · exact VariadicList.position_after (Nat.le_of_eq hb.size.symm) hb.slot
  · obtain ⟨g, _, _, _, hnew⟩ := hb.of_uses hacc hx
    exact hnew
  intro moves hmoves ctx' hctx' hu
  -- What the list uses is among what has been handed out.
  have hT : (play (.call ctx c :: past)).Sound system False
      ((handedOut past).map (·.region) ++ (buffer :: copies)) := by
    have hf := Session.follows_move hlaw.separate hS (m := .call ctx c) hctx False.elim
    exact ⟨hf.sound.store, hb.changes.ledger hlaw.separate hS.store hS.ledger, hf.sound.handles,
      hf.sound.chores⟩
  obtain ⟨G', hU, hlater⟩ := play_follows hlaw.separate hT moves hmoves False.elim
  refine hb.readsBack hlaw hacc hlater hU.store hU.ledger ?_ hctx' hu
  exact List.Subset.trans (List.subset_append_right _ _) (List.subset_append_left _ _)

/-- A number, a struct that travels in its slot and one that does not. -/
def pushingCalls : List (Thread × Call) :=
  [(0, .scope (.create .shared "s")),
    (0, .scope (.allocateNative 4 4 "s" (some "small"))),
    (0, .scope (.allocateNative 12 4 "s" (some "large"))),
    (1, .region (.write "large" 3 [1, 2, 3])),
    (0, .variadic (.builder "s" .win64 "b")),
    (0, .variadic (.push .cInt (.int 7) "b")),
    (0, .variadic (.push (.struct ⟨4, 4, .little⟩ [.cInt]) (.segment "small") "b")),
    (0, .variadic (.push (.struct ⟨12, 4, .big⟩ [.cInt, .cInt, .cInt]) (.segment "large") "b"))]

/-- The struct is read as it was, though its source has been filled since. -/
theorem pushingCalls_readBack :
    (∀ m ∈ movesOf TwinHeaps.system pushingCalls, m.Within TwinHeaps.system) ∧
    (∀ m ∈ movesOf TwinHeaps.system pushingCalls, ¬ m.Adopts) ∧
    ∃ v, (play (.call ⟨0, TwinHeaps.system⟩ (.variadic (.build "b" "v")) ::
        movesOf TwinHeaps.system pushingCalls)).list? "v" = some v ∧
      (v.after 3).position.toNat = 24 ∧
      ∃ r τ, ((v.after 2).readSegment (.struct ⟨12, 4, .big⟩ [.cInt, .cInt, .cInt])
          (.direct 1)).run ⟨1, TwinHeaps.system⟩
          (play (.call ⟨1, TwinHeaps.system⟩ (.region (.fill "large" 9)) ::
            .call ⟨0, TwinHeaps.system⟩ (.variadic (.build "b" "v")) ::
            movesOf TwinHeaps.system pushingCalls)).store = .ok (r, v.after 3) τ ∧
        τ.memory.read r.start.toNat r.size.toNat = [0, 0, 0, 1, 2, 3, 0, 0, 0, 0, 0, 0] := by
  have hw := within_movesOf TwinHeaps.system pushingCalls
  have ha := adopts_movesOf TwinHeaps.system (show ∀ p ∈ pushingCalls, ¬ p.2.Adopts by decide)
  have hS : (play (movesOf TwinHeaps.system pushingCalls)).Sound TwinHeaps.system True _ :=
    play_sound TwinHeaps.lawful.separate hw fun _ => ha
  have hb : (play (movesOf TwinHeaps.system pushingCalls)).builder? "b" = some ⟨.win64, 1,
      [⟨.cInt, .int 7⟩, ⟨.struct ⟨4, 4, .little⟩ [.cInt], .segment ⟨0x20000004, 4, 1⟩⟩,
        ⟨.struct ⟨12, 4, .big⟩ [.cInt, .cInt, .cInt], .segment ⟨0x2000000c, 12, 1⟩⟩]⟩ := rfl
  have hc : (Call.variadic (.build "b" "v")).Builds (play (movesOf TwinHeaps.system pushingCalls))
      _ "v" := ⟨hb, rfl⟩
  have hctx : Context.system ⟨0, TwinHeaps.system⟩ |>.Within TwinHeaps.system := .refl _
  obtain ⟨v, hv, _, hposition, hnew, hreads⟩ := play_readsBack TwinHeaps.lawful hw hctx hc
    (List.cons_ne_nil _ _) (fun arg harg r hr => hc.inside hS harg hr) rfl
  have hread := hreads [.call ⟨1, TwinHeaps.system⟩ (.region (.fill "large" 9))]
    (fun m hm => List.mem_singleton.mp hm ▸ .refl _) ⟨1, TwinHeaps.system⟩ (.refl _) rfl
  have hyields := hread.yields (fun x hx => ?_) 2 _ rfl
  · obtain ⟨τ, hrun, hbytes, _⟩ := hyields (.direct 1) (fun a ha => by cases ha) _ _ rfl
    exact ⟨hw, ha, v, hv, hposition, _, τ, hrun, hbytes⟩
  · -- Only the source is filled, and it was in use before.
    refine Memory.byte_fill_of_not fun hfill => hnew x hx ⟨⟨0x2000000c, 12⟩, by decide, ?_⟩
    exact hfill

end ScopedMemory
