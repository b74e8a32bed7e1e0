import Mathlib.Data.List.Induction
import IhsWl.Lib.Runs
import IhsWl.Sandbox

/-!
# The app knows a client's sandbox

No text of a context is cut, and no sandbox makes a context for another.
-/

namespace IhsWl.Sandbox

variable {signed : Bool}

/-! ## Texts -/

theorem cChar_zero : cChar signed 0 = 0 := by
  cases signed <;> rfl

theorem lowByte_cChar (signed : Bool) (b : UInt8) : lowByte (cChar signed b) = b := by
  cases signed with
  | false =>
      have hlt : b.toNat < 256 := b.toNat_lt
      have hmod : ((b.toNat : Int) % 256).toNat = b.toNat := by omega
      simp only [lowByte, cChar, Bool.false_eq_true, if_false, hmod, UInt8.ofNat_toNat]
  | true =>
      have hlt : b.toNat < 256 := b.toNat_lt
      have hmod : (b.toInt8.toInt % 256).toNat = b.toNat := by
        have hbmod : b.toInt8.toInt = (b.toNat : Int).bmod 256 := BitVec.toInt_eq_toNat_bmod b.toBitVec
        rw [hbmod, Int.bmod_def]
        split <;> omega
      simp only [lowByte, cChar, if_true, hmod, UInt8.ofNat_toNat]

theorem cChar_eq_zero {b : UInt8} : cChar signed b = 0 ↔ b = 0 := by
  constructor
  · intro h
    rw [← lowByte_cChar signed b, h]
    rfl
  · rintro rfl
    exact cChar_zero

theorem takeWhile_nul (l r : List Int) : (l ++ 0 :: r).takeWhile (· ≠ 0) = l.takeWhile (· ≠ 0) := by
  induction l with
  | nil => rfl
  | cons c l ih =>
      by_cases hc : c = 0
      · simp [hc]
      · simp only [List.cons_append, List.takeWhile_cons, hc, ne_eq, not_false_eq_true, decide_true, if_true, List.cons.injEq,
          true_and]
        exact ih

/-- What can be told of a text: what is before its first NUL, if anything is. -/
def told (s : Option Utf8) : Option Utf8 := (s.map fun t => t.takeWhile (· ≠ 0)).filter (· ≠ [])

/-- A text that fits is read as it was written, whatever was in the array. -/
theorem string_copyStr (out : CChars) {s : Option Utf8} (hs : ∀ t ∈ s, t.length ≤ identityMax) :
    string (copyStr signed out s) = told s := by
  have hlength : (s.getD []).length ≤ 255 := by
    cases s with
    | none => simp
    | some t => exact hs t rfl
  have hmin : min (s.getD []).length (out.chars.length - 1) = (s.getD []).length := by
    rw [out.length]
    omega
  have hchars : (copyStr signed out s).chars =
      (s.getD []).map (cChar signed) ++ 0 :: out.chars.drop ((s.getD []).length + 1) := by
    obtain ⟨c, hdrop⟩ : ∃ c, out.chars.drop (s.getD []).length = c :: out.chars.drop ((s.getD []).length + 1) :=
      ⟨_, List.drop_eq_getElem_cons (by rw [out.length]; omega)⟩
    simp only [copyStr, hmin, List.take_length]
    rw [List.set_append_right _ _ (by simp), hdrop]
    simp only [List.length_map, Nat.sub_self, List.set_cons_zero]
  have hbytes : ((copyStr signed out s).chars.takeWhile (· ≠ 0)).map lowByte = (s.getD []).takeWhile (· ≠ 0) := by
    have hcond : ((fun c : Int => decide (c ≠ 0)) ∘ cChar signed) = fun b : UInt8 => decide (b ≠ 0) := by
      funext b
      simp [cChar_eq_zero]
    have hsame : lowByte ∘ cChar signed = id := funext (lowByte_cChar signed)
    rw [hchars, takeWhile_nul, List.takeWhile_map, hcond, List.map_map, hsame, List.map_id]
  simp only [string, hbytes, told]
  cases s with
  | none => rfl
  | some t =>
      simp only [Option.getD_some, Option.map_some]
      cases t.takeWhile (· ≠ 0) <;> rfl

/-! ## Connections -/

/-- Its texts fit, and no sandbox made it. -/
structure SecurityContext.Proper (context : SecurityContext) (s : Connections) : Prop where
  engine : ∀ t ∈ context.sandboxEngine, t.length ≤ identityMax
  appId : ∀ t ∈ context.appId, t.length ≤ identityMax
  instanceId : ∀ t ∈ context.instanceId, t.length ≤ identityMax
  creator : ∀ data, s.clients context.creatorClientId = some data → data.securityContext = none
  known : context.creatorClientId < s.nextId

/-- Whoever made it stays out of any sandbox. -/
theorem SecurityContext.Proper.keep {context : SecurityContext} {s s' : Connections} (h : context.Proper s)
    (hclients : ∀ data, s'.clients context.creatorClientId = some data → s.clients context.creatorClientId = some data)
    (hnext : s.nextId ≤ s'.nextId) : context.Proper s' :=
  ⟨h.engine, h.appId, h.instanceId, fun data hdata => h.creator data (hclients data hdata), Nat.lt_of_lt_of_le h.known hnext⟩

namespace Connections

variable {s : Connections}

structure Proper (s : Connections) : Prop where
  listeners : ∀ context ∈ s.listeners, context.Proper s
  clients : ∀ c data context, s.clients c = some data → data.securityContext = some context → context.Proper s
  fresh : ∀ c, s.nextId ≤ c → s.clients c = none

theorem Proper.acceptClient (h : s.Proper) (credentials : Credentials) {securityContext : Option SecurityContext}
    (hcontext : ∀ context ∈ securityContext, context.Proper s) : (s.acceptClient credentials securityContext).Proper := by
  -- Who made a context is not who just came.
  have hkeeps {context : SecurityContext} (hp : context.Proper s) :
      context.Proper (s.acceptClient credentials securityContext) := by
    refine hp.keep (fun data hdata => ?_) (Nat.le_succ _)
    have hne : context.creatorClientId ≠ s.nextId := Nat.ne_of_lt hp.known
    simpa only [Connections.acceptClient, Function.update_of_ne hne] using hdata
  refine ⟨fun context hmem => hkeeps (h.listeners context hmem), fun c data context hdata hof => ?_, fun c hc => ?_⟩
  · by_cases hnew : c = s.nextId
    · simp only [Connections.acceptClient, hnew, Function.update_self] at hdata
      cases hdata
      exact hkeeps (hcontext context hof)
    · simp only [Connections.acceptClient, Function.update_of_ne hnew] at hdata
      exact hkeeps (h.clients c data context hdata hof)
  · have hne : c ≠ s.nextId := Nat.ne_of_gt (Nat.lt_of_succ_le hc)
    simp only [Connections.acceptClient, Function.update_of_ne hne]
    exact h.fresh c (Nat.le_of_succ_le hc)

/-- Whom the manager is shown to connected on the server's own socket. -/
theorem data_of_open {c : ClientId} (hopen : s.sandboxed c = false) :
    ∃ data, s.clients c = some data ∧ data.securityContext = none := by
  cases hc : s.clients c with
  | none => simp [sandboxed, hc] at hopen
  | some data => exact ⟨data, rfl, by simpa [sandboxed, hc] using hopen⟩

theorem Proper.contextCreated (h : s.Proper) {context : SecurityContext} (hopen : s.sandboxed context.creatorClientId = false) :
    (s.contextCreated context).Proper := by
  obtain ⟨data, hdata, hnone⟩ := data_of_open hopen
  have hknown : context.creatorClientId < s.nextId := by
    by_contra hnot
    rw [h.fresh _ (Nat.le_of_not_lt hnot)] at hdata
    cases hdata
  unfold Connections.contextCreated
  split
  · exact h
  · rename_i hfits
    simp only [List.any_cons, List.any_nil, Bool.or_false, Bool.or_eq_true, not_or, Option.any_eq_true, decide_eq_true_eq,
      not_exists, not_and, Nat.not_lt] at hfits
    have hproper : context.Proper s := by
      refine ⟨hfits.1, hfits.2.1, hfits.2.2, fun data' hdata' => ?_, hknown⟩
      cases hdata.symm.trans hdata'
      exact hnone
    refine ⟨fun c hmem => ?_, fun c data c' hdata hof => ?_, h.fresh⟩
    · rcases List.mem_append.mp hmem with hmem | hmem
      · exact (h.listeners c hmem).keep (fun _ => id) (Nat.le_refl _)
      · obtain rfl := List.mem_singleton.mp hmem
        exact hproper.keep (fun _ => id) (Nat.le_refl _)
    · exact (h.clients c data c' hdata hof).keep (fun _ => id) (Nat.le_refl _)

theorem Proper.disconnected (h : s.Proper) (c : ClientId) : (s.step (.disconnected c)).Proper := by
  have hgone {y : ClientId} {data : Connected} (hy : (s.step (.disconnected c)).clients y = some data) :
      s.clients y = some data := by
    simp only [Connections.step, Function.update_apply] at hy
    split at hy
    · cases hy
    · exact hy
  refine ⟨fun context hmem => ?_, fun y data context hy hof => ?_, fun y hy => ?_⟩
  · exact (h.listeners context hmem).keep (fun _ => hgone) (Nat.le_refl _)
  · exact (h.clients y data context (hgone hy) hof).keep (fun _ => hgone) (Nat.le_refl _)
  · cases hdata : (s.step (.disconnected c)).clients y with
    | none => rfl
    | some data => cases (h.fresh y hy).symm.trans (hgone hdata)

theorem Proper.step (h : s.Proper) (op : ConnectionOp) : (s.step op).Proper := by
  cases op with
  | contextCreated context =>
      simp only [Connections.step]
      split
      · exact h
      · rename_i hopen
        exact h.contextCreated (by simpa using hopen)
  | accepts credentials listener =>
      cases listener with
      | none => exact h.acceptClient credentials (by simp)
      | some i =>
          simp only [Connections.step]
          split
          · exact h
          · rename_i context hcontext
            refine h.acceptClient credentials fun c hc => ?_
            obtain rfl := Option.some.inj hc
            exact h.listeners context (List.mem_of_getElem? hcontext)
  | closes i =>
      refine ⟨fun context hmem => ?_, fun c data context hc hof => ?_, h.fresh⟩
      · exact (h.listeners context (List.mem_of_mem_eraseIdx hmem)).keep (fun _ => id) (Nat.le_refl _)
      · exact (h.clients c data context hc hof).keep (fun _ => id) (Nat.le_refl _)
  | disconnected c => exact h.disconnected c

theorem run_proper (ops : List ConnectionOp) : (run ops).Proper :=
  Runs.keeps (fun _ op h => h.step op) ops ⟨by simp, by simp, fun _ _ => rfl⟩

/-! ## Who made a context -/

/-- A client that was in no sandbox made the context in the course of `ops`. -/
def Made (ops : List ConnectionOp) (context : SecurityContext) : Prop :=
  ∃ pre post maker, ops = pre ++ .contextCreated context :: post ∧
    (run pre).clients context.creatorClientId = some maker ∧ maker.securityContext = none

theorem Made.concat {ops : List ConnectionOp} {context : SecurityContext} (h : Made ops context) (op : ConnectionOp) :
    Made (ops ++ [op]) context := by
  obtain ⟨pre, post, maker, rfl, hmaker, hnone⟩ := h
  exact ⟨pre, post ++ [op], maker, by simp, hmaker, hnone⟩

/-- Every context there is was made by a client in no sandbox, whether or not that client is there still. -/
theorem run_made (ops : List ConnectionOp) : (∀ context ∈ (run ops).listeners, Made ops context) ∧
    ∀ c data, (run ops).clients c = some data → ∀ context ∈ data.securityContext, Made ops context := by
  induction ops using List.reverseRecOn with
  | nil => exact ⟨by simp [run], by simp [run]⟩
  | append_singleton ops op ih =>
      obtain ⟨hlisteners, hclients⟩ := ih
      have hrun : run (ops ++ [op]) = (run ops).step op := by simp [run]
      have haccepts {credentials : Credentials} {securityContext : Option SecurityContext}
          (hof : ∀ context ∈ securityContext, Made ops context) :
          (∀ context ∈ ((run ops).acceptClient credentials securityContext).listeners, Made (ops ++ [op]) context) ∧
          ∀ c data, ((run ops).acceptClient credentials securityContext).clients c = some data →
            ∀ context ∈ data.securityContext, Made (ops ++ [op]) context := by
        refine ⟨fun context hmem => (hlisteners context hmem).concat op, fun c data hdata context hmem => ?_⟩
        simp only [acceptClient, Function.update_apply] at hdata
        split at hdata
        · cases hdata
          exact (hof context hmem).concat op
        · exact (hclients c data hdata context hmem).concat op
      rw [hrun]
      cases op with
      | contextCreated context =>
          refine ⟨fun context' hmem => ?_, fun c data hdata context' hmem => ?_⟩
          · simp only [step] at hmem
            split at hmem
            · exact (hlisteners context' hmem).concat _
            · rename_i hopen
              obtain ⟨maker, hmaker, hnone⟩ := data_of_open (by simpa using hopen)
              unfold Connections.contextCreated at hmem
              split at hmem
              · exact (hlisteners context' hmem).concat _
              · rcases List.mem_append.mp hmem with hmem | hmem
                · exact (hlisteners context' hmem).concat _
                · obtain rfl := List.mem_singleton.mp hmem
                  exact ⟨ops, [], maker, rfl, hmaker, hnone⟩
          · have hkept : ((run ops).step (.contextCreated context)).clients = (run ops).clients := by
              simp only [step, Connections.contextCreated]
              split
              · rfl
              · split <;> rfl
            rw [hkept] at hdata
            exact (hclients c data hdata context' hmem).concat _
      | accepts credentials listener =>
          cases listener with
          | none => exact haccepts (by simp)
          | some i =>
              simp only [step]
              split
              · exact ⟨fun context hmem => (hlisteners context hmem).concat _,
                  fun c data hdata context hmem => (hclients c data hdata context hmem).concat _⟩
              · rename_i context hcontext
                refine haccepts fun context' hmem => ?_
                obtain rfl := Option.some.inj hmem
                exact hlisteners context (List.mem_of_getElem? hcontext)
      | closes i =>
          exact ⟨fun context hmem => (hlisteners context (List.mem_of_mem_eraseIdx hmem)).concat _,
            fun c data hdata context hmem => (hclients c data hdata context hmem).concat _⟩
      | disconnected y =>
          refine ⟨fun context hmem => (hlisteners context hmem).concat _, fun c data hdata context hmem => ?_⟩
          simp only [step, Function.update_apply] at hdata
          split at hdata
          · cases hdata
          · exact (hclients c data hdata context hmem).concat _

/-! ## What the app is told -/

/-- The app is told a client's credentials and its sandbox, text for text, and no sandbox made its context. -/
theorem run_identifies (ops : List ConnectionOp) {c : ClientId} {data : Connected} (hc : (run ops).clients c = some data)
    (info : IhsWlClientInfo) :
    client (ihsWlViewClient signed (some data) info) = some {
      pid := data.credentials.pid
      uid := data.credentials.uid
      gid := data.credentials.gid
      sandbox := data.securityContext.map fun context =>
        { engine := told context.sandboxEngine, appId := told context.appId, instanceId := told context.instanceId } } ∧
    ∀ context ∈ data.securityContext, Made ops context ∧
      ∀ maker, (run ops).clients context.creatorClientId = some maker → maker.securityContext = none := by
  have hproper := run_proper ops
  cases hcontext : data.securityContext with
  | none =>
      refine ⟨?_, by simp⟩
      simp [client, ihsWlViewClient, hcontext]
  | some context =>
      have hof : context.Proper (run ops) := hproper.clients c data context hc hcontext
      refine ⟨?_, fun context' hmem => ⟨(run_made ops).2 c data hc context' (hcontext ▸ hmem), fun maker hmaker => ?_⟩⟩
      · simp only [client, ihsWlViewClient, hcontext, Option.isSome_some, Option.map_some, Option.getD_some, ne_eq,
          not_true_eq_false, if_false, if_true, string_copyStr _ hof.engine, string_copyStr _ hof.appId,
          string_copyStr _ hof.instanceId]
      · obtain rfl := Option.some.inj hmem
        exact hof.creator maker hmaker

/-- As Dart hands it in. -/
def zeroed : IhsWlClientInfo where
  pid := 0
  uid := 0
  gid := 0
  sandboxed := false
  sandboxEngine := ⟨List.replicate 256 0, List.length_replicate⟩
  sandboxAppId := ⟨List.replicate 256 0, List.length_replicate⟩
  sandboxInstanceId := ⟨List.replicate 256 0, List.length_replicate⟩

/-- An engine starts an app in a sandbox, which would make a context of its own. -/
def engineRun : List ConnectionOp :=
  [.accepts ⟨10, 1000, 1000⟩ none, .contextCreated { appId := some [0xc3, 0xa9], creatorClientId := 0 },
    .accepts ⟨11, 1000, 1000⟩ (some 0), .contextCreated { appId := some [0x61], creatorClientId := 1 }]

theorem run_identifies_engine : (run engineRun).listeners.length = 1 ∧
    Made engineRun { appId := some [0xc3, 0xa9], creatorClientId := 0 } ∧ client (ihsWlViewClient true ((run engineRun).clients 1) zeroed) =
      some {
        pid := 11
        uid := 1000
        gid := 1000
        sandbox := some { engine := none, appId := some [0xc3, 0xa9], instanceId := none } } := by
  have hc : (run engineRun).clients 1 =
      some ⟨⟨11, 1000, 1000⟩, some { appId := some [0xc3, 0xa9], creatorClientId := 0 }⟩ := by decide +kernel
  obtain ⟨htold, hmade⟩ := run_identifies engineRun hc zeroed
  refine ⟨by decide +kernel, (hmade _ rfl).1, ?_⟩
  rw [hc]
  exact htold

end Connections

end IhsWl.Sandbox
