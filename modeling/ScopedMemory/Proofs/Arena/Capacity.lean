import Mathlib.Order.Bounds.Basic
import ScopedMemory.Heap.TwinHeaps
import ScopedMemory.Proofs.Arena.Config
import ScopedMemory.Proofs.Session.Arithmetic

namespace ScopedMemory

open Operation

variable {system : SystemAllocator} {waiting : List Block} {past : List Move} {ctx : Context}
  {σ τ ρ : Store} {a : ArenaId} {block : Region} {bytes size align blockAlign : Word} {c d : Nat}

/-- A request to an arena and what came of it. -/
structure Asked where
  request : Request
  outcome : Except MemoryError Region

namespace Asked

/-- The regions that requests were served with. -/
def served (es : List Asked) : List Region := es.filterMap (·.outcome.toOption)

/-- Some requests that failed are left out. -/
inductive Thins : List Asked → List Asked → Prop
  | done : Thins [] []
  | keep {es es' : List Asked} (e : Asked) (h : Thins es es') : Thins (e :: es) (e :: es')
  | leave {es es' : List Asked} (q : Request) (fault : MemoryError) (h : Thins es es') :
    Thins (⟨q, .error fault⟩ :: es) es'

/-- How a block of `bytes` bytes answers requests from an offset on, and which offset it is left
at. -/
inductive Laid (block : Region) (bytes : Word) : Nat → List Asked → Nat → Prop
  | done {c : Nat} : Laid block bytes c [] c
  | served {c o d : Nat} {q : Request} {r : Region} {es : List Asked}
      (ho : IsLeast {o | c ≤ o ∧ q.align.toNat ∣ block.start.toNat + o} o)
      (hroom : o + q.size.toNat ≤ bytes.toNat)
      (hstart : r.start.toNat = block.start.toNat + o) (hsize : r.size = q.size)
      (hscope : r.scope = block.scope) (h : Laid block bytes (o + q.size.toNat) es d) :
    Laid block bytes c (⟨q, .ok r⟩ :: es) d
  | refused {c o d : Nat} {q : Request} {available : Word} {es : List Asked}
      (ho : IsLeast {o | c ≤ o ∧ q.align.toNat ∣ block.start.toNat + o} o)
      (hfull : bytes.toNat < o + q.size.toNat) (hleft : available.toNat = bytes.toNat - c)
      (h : Laid block bytes c es d) :
    Laid block bytes c (⟨q, .error (.outOfMemory q.size available)⟩ :: es) d

end Asked

/-- The gaps before regions that come one after another, from an address on. -/
def gaps : Nat → List Region → List Nat
  | _, [] => []
  | finish, r :: rs => (r.start.toNat - finish) :: gaps (r.start.toNat + r.size.toNat) rs

namespace Asked.Laid

variable {es es' : List Asked}

theorem le (h : Laid block bytes c es d) (hc : c ≤ bytes.toNat) : c ≤ d ∧ d ≤ bytes.toNat := by
  induction h with
  | done => exact ⟨Nat.le_refl _, hc⟩
  | served ho hroom _ _ _ _ ih =>
    obtain ⟨hle, hend⟩ := ih hroom
    have hstart := ho.1.1
    exact ⟨by omega, hend⟩
  | refused _ _ _ _ ih => exact ih hc

/-- Where the block is left, all bytes before are in the regions that were served or in the gaps
before them. -/
theorem filled (h : Laid block bytes c es d) :
    c + total (·.size.toNat) (Asked.served es) +
      total id (gaps (block.start.toNat + c) (Asked.served es)) = d := by
  induction h with
  | done => rfl
  | @served c o d q r es ho hroom hstart hsize _ _ ih =>
    have hle := ho.1.1
    have hserved : Asked.served (⟨q, .ok r⟩ :: es) = r :: Asked.served es := rfl
    rw [hserved, gaps, total_cons, total_cons, hsize, hstart, Nat.add_assoc block.start.toNat]
    simp only [id]
    omega
  | refused _ _ _ _ ih => exact ih

/-- The answers are determined by the requests. -/
theorem unique (h : Laid block bytes c es d) {d' : Nat} (h' : Laid block bytes c es' d')
    (hq : es.map (·.request) = es'.map (·.request)) : es = es' ∧ d = d' := by
  induction h generalizing es' d' with
  | done =>
    cases h' with
    | done => exact ⟨rfl, rfl⟩
    | _ => cases hq
  | @served c o d q r es ho hroom hstart hsize hscope _ ih =>
    cases h' with
    | done => cases hq
    | @served _ o' _ _ r' _ ho' _ hstart' hsize' hscope' h' =>
      simp only [List.map_cons, List.cons.injEq] at hq
      obtain ⟨rfl, hq⟩ := hq
      obtain rfl := ho.unique ho'
      have hr : r = r' := by
        cases r
        cases r'
        simp only [Region.mk.injEq]
        exact ⟨UInt64.toNat_inj.mp (hstart.trans hstart'.symm), hsize.trans hsize'.symm,
          hscope.trans hscope'.symm⟩
      obtain ⟨rfl, rfl⟩ := ih h' hq
      exact ⟨by rw [hr], rfl⟩
    | refused ho' hfull =>
      simp only [List.map_cons, List.cons.injEq] at hq
      obtain ⟨rfl, _⟩ := hq
      obtain rfl := ho.unique ho'
      omega
  | @refused c o d q available es ho hfull hleft _ ih =>
    cases h' with
    | done => cases hq
    | served ho' hroom =>
      simp only [List.map_cons, List.cons.injEq] at hq
      obtain ⟨rfl, _⟩ := hq
      obtain rfl := ho.unique ho'
      omega
    | refused _ _ hleft' h' =>
      simp only [List.map_cons, List.cons.injEq] at hq
      obtain ⟨rfl, hq⟩ := hq
      obtain rfl := UInt64.toNat_inj.mp (hleft.trans hleft'.symm)
      obtain ⟨rfl, rfl⟩ := ih h' hq
      exact ⟨rfl, rfl⟩

/-- A request that failed has left no trace. -/
theorem thins (h : Laid block bytes c es d) (ht : Thins es es') : Laid block bytes c es' d := by
  induction ht generalizing c with
  | done => exact h
  | keep e _ ih =>
    cases h with
    | served ho hroom hstart hsize hscope h => exact .served ho hroom hstart hsize hscope (ih h)
    | refused ho hfull hleft h => exact .refused ho hfull hleft (ih h)
  | leave q fault _ ih =>
    cases h with
    | refused _ _ _ h => exact ih h

/-- What fits into the block is carved from it. -/
theorem carved {f : Frontier} (ha : align.IsPowerOfTwo) (hsize : f.block.size = bytes)
    (hend : f.block.start.toNat + f.block.size.toNat < 0x10000000000000000) {start : Word}
    (hfit : f.fit? size align = some start)
    (h : Laid f.block bytes (start + size).toNat es d) :
    Laid f.block bytes f.cursor.toNat
      (⟨⟨size, align⟩, .ok (f.block.narrow start size)⟩ :: es) d := by
  obtain ⟨hstart, hroom⟩ := (Frontier.fit?_eq_some_iff ha hend).mp hfit
  have hlt := f.block.size.toNat_lt
  have hsum : (start + size).toNat = f.next align + size.toNat := by
    rw [UInt64.toNat_add, hstart, Nat.mod_eq_of_lt (by omega)]
  have haddress : (f.block.narrow start size).start.toNat =
      f.block.start.toNat + f.next align := by
    show (f.block.start + start).toNat = _
    rw [UInt64.toNat_add, hstart, Nat.mod_eq_of_lt (by omega)]
  rw [hsum] at h
  exact .served (Frontier.isLeast_next ha) (hsize ▸ hroom) haddress rfl rfl h

theorem full {f : Frontier} (ha : align.IsPowerOfTwo) (hsize : f.block.size = bytes)
    (hend : f.block.start.toNat + f.block.size.toNat < 0x10000000000000000)
    (hfit : f.fit? size align = none) (hc : f.cursor.toNat ≤ bytes.toNat)
    (h : Laid f.block bytes f.cursor.toNat es d) :
    Laid f.block bytes f.cursor.toNat
      (⟨⟨size, align⟩, .error (.outOfMemory size (bytes - f.cursor))⟩ :: es) d := by
  have hfull := (Frontier.fit?_eq_none_iff ha hend).mp hfit
  have hleft : (bytes - f.cursor).toNat = bytes.toNat - f.cursor.toNat :=
    UInt64.toNat_sub_of_le _ _ (UInt64.le_iff_toNat_le.mpr hc)
  exact .refused (q := ⟨size, align⟩) (Frontier.isLeast_next ha) (hsize ▸ hfull) hleft h

end Asked.Laid

namespace ArenaId

/-- Admitted requests to the arena by callers who may use its scope, one after another. Between them
anything may happen that leaves the arena as it is. -/
inductive Course (system : SystemAllocator) (a : ArenaId) : Store → List Asked → Store → Prop
  | done {σ : Store} : Course system a σ [] σ
  | aside {σ τ ρ : Store} {es : List Asked} {waiting : List Block}
      (hs : τ.Sound system False waiting) (hl : a < τ.arenas.length)
      (ha : τ.arena a = σ.arena a) (h : Course system a τ es ρ) : Course system a σ es ρ
  | asked {σ τ ρ : Store} {es : List Asked} {ctx : Context} {q : Request}
      {o : Except MemoryError Region} (hw : ctx.system.Within system)
      (hu : σ.checkUsable ctx.caller (σ.arena a).scope = .ok ())
      (hq : checkRequest q.size q.align = .ok ())
      (hrun : (attempt (a.allocate q.size q.align)).run ctx σ = .ok o τ)
      (h : Course system a τ es ρ) : Course system a σ (⟨q, o⟩ :: es) ρ

/-- A request in the course of others comes to one of the answers, and leaves things in order. -/
theorem answers_asked (hlaw : system.Lawful) (hs : σ.Sound system False waiting)
    (hc : σ.Configures a (.bounded bytes) blockAlign) (hp : blockAlign.IsPowerOfTwo)
    (hw : ctx.system.Within system) (hu : σ.checkUsable ctx.caller (σ.arena a).scope = .ok ())
    {q : Request} (hq : checkRequest q.size q.align = .ok ()) {o : Except MemoryError Region}
    (hrun : (attempt (a.allocate q.size q.align)).run ctx σ = .ok o τ) :
    a.Answers ctx.system q.size q.align σ o τ ∧ τ.Sound system False waiting ∧
      τ.Configures a (.bounded bytes) blockAlign := by
  have hpow : (σ.arena a).blockAlign.IsPowerOfTwo := by rwa [hc.blockAlign]
  obtain ⟨o', τ', hrun', hanswer⟩ :=
    answers_bounded hlaw hs hw hc.known hu hpow hq hc.capacity
  cases hrun.symm.trans hrun'
  have hbuys : (attempt (a.allocate q.size q.align)).Leads ctx σ
      (fun _ τ => ∃ ss ps, σ.Deals system ss ps τ) fun _ => False :=
    leads_attempt ((buys_allocate hw hc.known q.size q.align).imp
      (fun _ _ ⟨ps, _, hd⟩ => ⟨_, ps, hd⟩) fun _ ⟨ps, _, hd⟩ _ => ⟨_, ps, hd⟩)
  obtain ⟨_, _, hd⟩ := hbuys.ok hrun
  exact ⟨hanswer, hd.sound hs, hd.configures hc⟩

/-- A bounded arena with a block serves all from it. -/
theorem Course.laid (hlaw : system.Lawful) (hp : blockAlign.IsPowerOfTwo) {es : List Asked}
    (h : Course system a σ es ρ) (hs : σ.Sound system False waiting)
    (hc : σ.Configures a (.bounded bytes) blockAlign) {f : Frontier}
    (hf : (σ.arena a).frontier = some f) (hsize : f.block.size = bytes) :
    ∃ g, (ρ.arena a).frontier = some g ∧ g.block = f.block ∧
      Asked.Laid f.block bytes f.cursor.toNat es g.cursor.toNat := by
  induction h generalizing waiting f with
  | done => exact ⟨f, hf, rfl, .done⟩
  | aside hs' hl ha _ ih =>
    refine ih hs' ⟨hl, ?_, ?_⟩ ?_ hsize
    all_goals rw [ha]
    · exact hc.capacity
    · exact hc.blockAlign
    · exact hf
  | @asked σ τ ρ es ctx q o hw hu hq hrun _ ih =>
    have ha := isPowerOfTwo_of_checkRequest hq
    have halive : σ.IsAlive (σ.arena a).scope := (Store.checkUsable_eq_ok_iff.mp hu).2
    have hend := hs.frontier_lt hlaw hc.known halive hf
    have hcursor := ((hs.arenas a hc.known).frontier f hf).2.2
    obtain ⟨hanswer, hs', hc'⟩ := answers_asked hlaw hs hc hp hw hu hq hrun
    have hnone : (σ.arena a).order? q.size q.align = none := by
      unfold Arena.order?
      rw [hc.capacity, hf]
      rfl
    cases hanswer with
    | @carved g start hg hfit =>
      obtain rfl := Option.some.inj (hf.symm.trans hg)
      have hf' := congrArg Arena.frontier (Store.arena_carved hc.known f start q.size)
      obtain ⟨g, hg, hb, hlaid⟩ := ih hs' hc' hf' hsize
      exact ⟨g, hg, hb, hlaid.carved ha hsize hend hfit⟩
    | full hcap hg hfit =>
      obtain rfl := Option.some.inj (hf.symm.trans hg)
      cases hc.capacity.symm.trans hcap
      have hf' := congrArg Arena.frontier (Store.arena_failed hc.known)
      obtain ⟨g, hg, hb, hlaid⟩ := ih hs' hc' (hf'.trans hf) hsize
      exact ⟨g, hg, hb, hlaid.full ha hsize hend hfit (hsize ▸ hcursor)⟩
    | refused ho | dedicated _ _ ho | installed ho | outgrown _ ho => cases hnone.symm.trans ho

/-- Requests fail as long as the system has no block for the arena; from the first one on that it
has a block for, everything is served from there. -/
def Opens (a : ArenaId) (bytes : Word) (es : List Asked) (ρ : Store) : Prop :=
  ∃ es₀ es₁, es = es₀ ++ es₁ ∧ (∀ e ∈ es₀, e.outcome = .error (.outOfMemory bytes 0)) ∧
    ((es₁ = [] ∧ (ρ.arena a).frontier = none) ∨
      ∃ g, (ρ.arena a).frontier = some g ∧ g.block.size = bytes ∧
        Asked.Laid g.block bytes 0 es₁ g.cursor.toNat)

theorem Course.opens (hlaw : system.Lawful) (hp : blockAlign.IsPowerOfTwo) {es : List Asked}
    (h : Course system a σ es ρ) (hs : σ.Sound system False waiting)
    (hc : σ.Configures a (.bounded bytes) blockAlign) (hf : (σ.arena a).frontier = none) :
    a.Opens bytes es ρ := by
  induction h generalizing waiting with
  | done => exact ⟨[], [], rfl, nofun, Or.inl ⟨rfl, hf⟩⟩
  | aside hs' hl ha _ ih =>
    refine ih hs' ⟨hl, ?_, ?_⟩ ?_
    all_goals rw [ha]
    · exact hc.capacity
    · exact hc.blockAlign
    · exact hf
  | @asked σ τ ρ es ctx q o hw hu hq hrun hrest ih =>
    have ha := isPowerOfTwo_of_checkRequest hq
    obtain ⟨hanswer, hs', hc'⟩ := answers_asked hlaw hs hc hp hw hu hq hrun
    have horder : (σ.arena a).order? q.size q.align = some (bytes, blockAlign) := by
      unfold Arena.order?
      rw [hc.capacity, hf, hc.blockAlign]
      rfl
    -- What follows on the request that obtains the block is served from the block.
    have hblock : ∀ {base cursor : Word}, ctx.system.request σ.events
        (σ.poolOf (σ.arena a).scope) bytes blockAlign = some base →
        (τ.arena a).frontier = some ⟨⟨base, bytes, (σ.arena a).scope⟩, cursor⟩ →
        base.toNat + bytes.toNat < 0x10000000000000000 ∧
        ∃ g, (ρ.arena a).frontier = some g ∧ g.block = ⟨base, bytes, (σ.arena a).scope⟩ ∧
          Asked.Laid ⟨base, bytes, (σ.arena a).scope⟩ bytes cursor.toNat es g.cursor.toNat := by
      intro base cursor hb hf'
      refine ⟨?_, hrest.laid hlaw hp hs' hc' hf' rfl⟩
      have hlt := hlaw.bounded hs.history hp (hw.place hb)
      unfold Block.finish at hlt
      dsimp only at hlt
      omega
    cases hanswer with
    | carved hg | full _ hg => cases hf.symm.trans hg
    | dedicated hcap => cases hc.capacity.symm.trans hcap
    | refused ho =>
      cases horder.symm.trans ho
      have hf' := congrArg Arena.frontier (Store.arena_failed hc.known)
      obtain ⟨es₀, es₁, rfl, hfailed, hrest⟩ := ih hs' hc' (hf'.trans hf)
      refine ⟨_ :: es₀, es₁, rfl, fun e he => ?_, hrest⟩
      rcases List.mem_cons.mp he with rfl | he
      · rfl
      · exact hfailed e he
    | @installed _ _ base start ho _ hb hfit =>
      cases horder.symm.trans ho
      have hlen : a < (σ.installed a base bytes).arenas.length := by
        rw [Store.length_arenas_installed]
        exact hc.known
      have hf' := congrArg Arena.frontier (Store.arena_carved hlen
        ⟨⟨base, bytes, (σ.arena a).scope⟩, 0⟩ start q.size)
      obtain ⟨hend, g, hg, hgb, hlaid⟩ := hblock hb hf'
      have hall := hlaid.carved (f := ⟨⟨base, bytes, (σ.arena a).scope⟩, 0⟩) ha rfl hend hfit
      exact ⟨[], _, rfl, nofun, Or.inr ⟨g, hg, by rw [hgb], by rw [hgb]; exact hall⟩⟩
    | @outgrown _ _ base hcap ho hb hfit =>
      cases horder.symm.trans ho
      have hlen : a < (σ.installed a base bytes).arenas.length := by
        rw [Store.length_arenas_installed]
        exact hc.known
      have hf' := congrArg Arena.frontier ((Store.arena_failed hlen).trans (by
        rw [Store.arena_installed hc.known]))
      obtain ⟨hend, g, hg, hgb, hlaid⟩ := hblock hb hf'
      have hall := hlaid.full (f := ⟨⟨base, bytes, (σ.arena a).scope⟩, 0⟩) ha rfl hend hfit
        (Nat.zero_le _)
      rw [UInt64.sub_zero] at hall
      exact ⟨[], _, rfl, nofun, Or.inr ⟨g, hg, by rw [hgb], by rw [hgb]; exact hall⟩⟩

/-- A bounded arena that has no block obtains one of all its bytes, if there is one, and asks for
none when it has one. -/
structure Rations (a : ArenaId) (bytes : Word) (o : Except MemoryError Region) (σ τ : Store) :
    Prop where
  first : (σ.arena a).frontier = none →
    ((∃ e, o = .error e) ∧ σ.obtained τ = [] ∧ (τ.arena a).frontier = none) ∨
      ∃ f, (τ.arena a).frontier = some f ∧ f.block.size = bytes ∧
        σ.obtained τ = [⟨f.block.start, bytes⟩]
  once : ∀ f, (σ.arena a).frontier = some f →
    σ.obtained τ = [] ∧ ∃ g, (τ.arena a).frontier = some g ∧ g.block = f.block

theorem Answers.rations {o : Except MemoryError Region}
    (h : a.Answers system size align σ o τ) (hl : a < σ.arenas.length)
    (hcap : (σ.arena a).capacity = .bounded bytes) : a.Rations bytes o σ τ := by
  have hnone : ∀ {f}, (σ.arena a).frontier = some f → (σ.arena a).order? size align = none := by
    intro f hf
    unfold Arena.order?
    rw [hcap, hf]
    rfl
  have hsize : ∀ {bytes' blockAlign}, (σ.arena a).order? size align = some (bytes', blockAlign) →
      bytes' = bytes := by
    intro bytes' blockAlign ho
    unfold Arena.order? at ho
    rw [hcap] at ho
    dsimp only at ho
    split at ho
    next => exact (congrArg Prod.fst (Option.some.inj ho)).symm
    next => cases ho
  cases h with
  | @carved f start hf =>
    refine ⟨fun hn => (Option.some_ne_none f (hf.symm.trans hn)).elim, fun g hg => ?_⟩
    obtain rfl := Option.some.inj (hf.symm.trans hg)
    exact ⟨Store.obtained_of_events [] rfl, _,
      congrArg Arena.frontier (Store.arena_carved hl f start size), rfl⟩
  | @full _ f _ hf =>
    refine ⟨fun hn => (Option.some_ne_none f (hf.symm.trans hn)).elim, fun g hg => ?_⟩
    refine ⟨Store.obtained_of_events [] rfl, g, ?_, rfl⟩
    exact (congrArg Arena.frontier (Store.arena_failed hl)).trans hg
  | refused ho =>
    refine ⟨fun hn => Or.inl ⟨⟨_, rfl⟩, Store.obtained_of_events [] rfl, ?_⟩,
      fun f hf => ?_⟩
    · exact (congrArg Arena.frontier (Store.arena_failed hl)).trans hn
    · cases (hnone hf).symm.trans ho
  | dedicated hunbounded => cases hcap.symm.trans hunbounded
  | @installed bytes' _ base start ho =>
    obtain rfl := hsize ho
    have hlen : a < (σ.installed a base bytes').arenas.length := by
      rwa [Store.length_arenas_installed]
    refine ⟨fun _ => Or.inr ⟨_, congrArg Arena.frontier (Store.arena_carved hlen
      ⟨⟨base, bytes', (σ.arena a).scope⟩, 0⟩ start size), rfl,
      Store.obtained_of_events [.placed (σ.poolOf (σ.arena a).scope) ⟨base, bytes'⟩] rfl⟩,
      fun f hf => ?_⟩
    cases (hnone hf).symm.trans ho
  | @outgrown bytes' _ base _ ho =>
    obtain rfl := hsize ho
    have hlen : a < (σ.installed a base bytes').arenas.length := by
      rwa [Store.length_arenas_installed]
    refine ⟨fun _ => Or.inr ⟨⟨⟨base, bytes', (σ.arena a).scope⟩, 0⟩, ?_, rfl,
      Store.obtained_of_events [.placed (σ.poolOf (σ.arena a).scope) ⟨base, bytes'⟩] rfl⟩,
      fun f hf => ?_⟩
    · rw [Store.arena_failed hlen, Store.arena_installed hl]
    · cases (hnone hf).symm.trans ho

end ArenaId

/-- How many bytes of its block the arena has passed. -/
def Arena.passed (ar : Arena) : Nat := ar.frontier.elim 0 (·.cursor.toNat)

namespace ArenaId

/-- A bounded arena has no choice what to do with the requests that come. -/
structure Rationed (system : SystemAllocator) (a : ArenaId) (bytes : Word) (σ : Store) :
    Prop where
  request : ∀ {ctx : Context}, ctx.system.Within system →
    σ.checkUsable ctx.caller (σ.arena a).scope = .ok () → ∀ {size align},
    checkRequest size align = .ok () → ∀ {o τ},
    (attempt (a.allocate size align)).run ctx σ = .ok o τ → a.Rations bytes o σ τ
  first : (σ.arena a).frontier = none → ∀ {es ρ}, a.Course system σ es ρ → a.Opens bytes es ρ
  further : ∀ f, (σ.arena a).frontier = some f → ∀ {es ρ}, a.Course system σ es ρ →
    ∃ g, (ρ.arena a).frontier = some g ∧ g.block = f.block ∧
      Asked.Laid f.block bytes f.cursor.toNat es g.cursor.toNat
  filled : ∀ {es ρ}, a.Course system σ es ρ → ∀ g, (ρ.arena a).frontier = some g →
    (σ.arena a).passed + total (·.size.toNat) (Asked.served es) +
      total id (gaps (g.block.start.toNat + (σ.arena a).passed) (Asked.served es)) =
        g.cursor.toNat ∧
    g.cursor.toNat ≤ bytes.toNat ∧
    (ρ.arena a).remaining.toNat = bytes.toNat - g.cursor.toNat
  /-- Without the requests that failed the others are answered as they were. -/
  thinned : (σ.arena a).frontier ≠ none → ∀ {es ρ}, a.Course system σ es ρ →
    ∀ {es'}, Asked.Thins es es' → ∀ {es'' ρ'}, a.Course system σ es'' ρ' →
    es''.map (·.request) = es'.map (·.request) →
    es'' = es' ∧ (ρ'.arena a).frontier = (ρ.arena a).frontier

theorem Opens.filled {es : List Asked} (h : a.Opens bytes es ρ) {g : Frontier}
    (hg : (ρ.arena a).frontier = some g) :
    g.block.size = bytes ∧ total (·.size.toNat) (Asked.served es) +
      total id (gaps g.block.start.toNat (Asked.served es)) = g.cursor.toNat ∧
    g.cursor.toNat ≤ bytes.toNat := by
  obtain ⟨es₀, es₁, rfl, hfailed, ⟨_, hn⟩ | ⟨g', hg', hsize, hlaid⟩⟩ := h
  · cases hg.symm.trans hn
  · obtain rfl := Option.some.inj (hg.symm.trans hg')
    have hserved : Asked.served (es₀ ++ es₁) = Asked.served es₁ := by
      unfold Asked.served
      rw [List.filterMap_append, List.filterMap_eq_nil_iff.mpr, List.nil_append]
      intro e he
      rw [hfailed e he]
      rfl
    have hfilled := hlaid.filled
    rw [Nat.zero_add, Nat.add_zero] at hfilled
    exact ⟨hsize, hserved ▸ hfilled, (hlaid.le (Nat.zero_le _)).2⟩

theorem toNat_remaining {ar : Arena} {g : Frontier} (hg : ar.frontier = some g)
    (hsize : g.block.size = bytes) (hle : g.cursor.toNat ≤ bytes.toNat) :
    ar.remaining.toNat = bytes.toNat - g.cursor.toNat := by
  unfold Arena.remaining
  rw [hg]
  dsimp only
  rw [hsize, UInt64.toNat_sub_of_le _ _ (UInt64.le_iff_toNat_le.mpr hle)]

theorem rationed (hlaw : system.Lawful) (hs : σ.Sound system False waiting)
    (hc : σ.Configures a (.bounded bytes) blockAlign) (hp : blockAlign.IsPowerOfTwo)
    (hsize : ∀ f, (σ.arena a).frontier = some f → f.block.size = bytes) :
    a.Rationed system bytes σ where
  request hw hu _ _ hq _ _ hrun :=
    (answers_asked hlaw hs hc hp hw hu (q := ⟨_, _⟩) hq hrun).1.rations hc.known hc.capacity
  first hf _ _ h := h.opens hlaw hp hs hc hf
  further f hf _ _ h := h.laid hlaw hp hs hc hf (hsize f hf)
  filled {es ρ} h g hg := by
    unfold Arena.passed
    cases hf : (σ.arena a).frontier with
    | none =>
      obtain ⟨hblock, hfilled, hle⟩ := (h.opens hlaw hp hs hc hf).filled hg
      rw [Option.elim_none, Nat.zero_add, Nat.add_zero]
      exact ⟨hfilled, hle, toNat_remaining hg hblock hle⟩
    | some f =>
      obtain ⟨g', hg', hblock, hlaid⟩ := h.laid hlaw hp hs hc hf (hsize f hf)
      obtain rfl := Option.some.inj (hg.symm.trans hg')
      have hcursor := ((hs.arenas a hc.known).frontier f hf).2.2
      have hle := (hlaid.le (hsize f hf ▸ hcursor)).2
      rw [Option.elim_some, hblock]
      exact ⟨hlaid.filled, hle, toNat_remaining hg (hblock ▸ hsize f hf) hle⟩
  thinned hn {es ρ} h es' hthin es'' ρ' h' hq := by
    obtain ⟨f, hf⟩ := Option.ne_none_iff_exists'.mp hn
    obtain ⟨g, hg, hblock, hlaid⟩ := h.laid hlaw hp hs hc hf (hsize f hf)
    obtain ⟨g', hg', hblock', hlaid'⟩ := h'.laid hlaw hp hs hc hf (hsize f hf)
    obtain ⟨hes, hcursor⟩ := hlaid'.unique (hlaid.thins hthin) hq
    refine ⟨hes, ?_⟩
    rw [hg, hg']
    cases g
    cases g'
    simp only [Option.some.injEq, Frontier.mk.injEq]
    exact ⟨hblock'.trans hblock.symm, UInt64.toNat_inj.mp hcursor⟩

end ArenaId

/-- Whatever state the run leads to, also in the midst of a call, bounded arenas obtain one block
each and hand it out from its beginning to its end. -/
structure Rationing (system : SystemAllocator) (past : List Move) : Prop where
  configured : ∀ a ∈ arenasMade past, (play past).store.Configured a
  once : ∀ a ∈ arenasMade past, ((play past).store.arena a).IsBounded →
    (obtainedBy past (.arena a)).length ≤ 1
  rationed : ∀ {m σ}, Midway system past m σ → ∀ {a bytes}, σ.Configured a →
    (σ.arena a).capacity = .bounded bytes → a.Rationed system bytes σ

theorem play_rations (hlaw : system.Lawful) (hpast : ∀ m ∈ past, m.Within system) :
    Rationing system past where
  configured := play_configured hlaw.separate hpast
  once a ha hb := by
    have h := play_books hlaw.packs hpast a ha
    obtain ⟨hblocks, hdedicated⟩ := h.bounded hb
    have hcount := h.blocks
    unfold Arena.blockCount at hcount
    rw [hdedicated] at hcount
    rw [UInt64.le_iff_toNat_le] at hblocks
    rw [← hcount]
    exact hblocks
  rationed h a bytes hc hcap := by
    have hp := hc.isPowerOfTwo
    obtain ⟨_, _, _, hconf⟩ := hc
    refine ArenaId.rationed hlaw (h.sound hlaw.packs hpast) ⟨hconf.known, hcap, rfl⟩ hp
      fun f hf => h.size_of_bounded hlaw.packs hpast hcap hf

/-- A bounded arena that has handed out 20 of its 64 bytes. -/
def rationingCalls : List (Thread × Call) :=
  [(0, .scope (.create .shared "s")),
    (0, .allocation (.arena "s" (.bounded 64) {} .confined "a")),
    (0, .allocation (.allocate (.raw 20 8) "a" none))]

def rationedStore : Store := (play (movesOf TwinHeaps.system rationingCalls)).store

theorem rationingCalls_ration :
    (∀ m ∈ movesOf TwinHeaps.system rationingCalls, m.Within TwinHeaps.system) ∧
    (rationedStore.arena 0).frontier = some ⟨⟨0x20000010, 64, 1⟩, 20⟩ ∧
    ∃ ρ ρ', ArenaId.Course TwinHeaps.system 0 rationedStore
        [⟨⟨60, 8⟩, .error (.outOfMemory 60 44)⟩, ⟨⟨8, 32⟩, .ok ⟨0x20000040, 8, 1⟩⟩] ρ ∧
      ArenaId.Course TwinHeaps.system 0 rationedStore [⟨⟨8, 32⟩, .ok ⟨0x20000040, 8, 1⟩⟩] ρ' ∧
      (ρ'.arena 0).frontier = (ρ.arena 0).frontier ∧
      20 + 8 + total id (gaps (0x20000010 + 20) [⟨0x20000040, 8, 1⟩]) = 56 ∧
      (ρ.arena 0).remaining.toNat = 64 - 56 := by
  have hw := within_movesOf TwinHeaps.system rationingCalls
  have h := play_rations TwinHeaps.lawful hw
  have hmade : arenasMade (movesOf TwinHeaps.system rationingCalls) = [0] := by decide +kernel
  have hf : (rationedStore.arena 0).frontier = some ⟨⟨0x20000010, 64, 1⟩, 20⟩ := by
    decide +kernel
  have hrationed : ArenaId.Rationed TwinHeaps.system 0 64 rationedStore :=
    h.rationed (midway_play _ _) (h.configured 0 (by rw [hmade]; exact List.mem_singleton.mpr rfl))
      (by decide +kernel)
  have hctx : ∀ t : Thread, Context.system ⟨t, TwinHeaps.system⟩ |>.Within TwinHeaps.system :=
    fun _ => .refl _
  obtain ⟨ρ, hcourse, hg⟩ : ∃ ρ, ArenaId.Course TwinHeaps.system 0 rationedStore
      [⟨⟨60, 8⟩, .error (.outOfMemory 60 44)⟩, ⟨⟨8, 32⟩, .ok ⟨0x20000040, 8, 1⟩⟩] ρ ∧
      (ρ.arena 0).frontier = some ⟨⟨0x20000010, 64, 1⟩, 56⟩ :=
    ⟨_, .asked (hctx 0) (by decide +kernel) (by decide) rfl
      (.asked (hctx 1) (by decide +kernel) (by decide) rfl .done), rfl⟩
  obtain ⟨ρ', hcourse'⟩ : ∃ ρ', ArenaId.Course TwinHeaps.system 0 rationedStore
      [⟨⟨8, 32⟩, .ok ⟨0x20000040, 8, 1⟩⟩] ρ' :=
    ⟨_, .asked (hctx 1) (by decide +kernel) (by decide) rfl .done⟩
  obtain ⟨hfilled, _, hremaining⟩ := hrationed.filled hcourse _ hg
  have hblock : (rationedStore.arena 0).frontier ≠ none := by
    rw [hf]
    exact Option.some_ne_none _
  have hthinned := hrationed.thinned hblock hcourse (.leave _ _ (.keep _ .done)) hcourse' rfl
  unfold Arena.passed at hfilled
  rw [hf] at hfilled
  exact ⟨hw, hf, ρ, ρ', hcourse, hcourse', hthinned.2, hfilled, hremaining⟩

end ScopedMemory
