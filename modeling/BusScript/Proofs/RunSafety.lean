import BusScript.Proofs.StepSafety

namespace BusScript

open Outcome (bind_iff get_iff ite_iff pure_iff)

namespace Stepping

open Body Machine

variable {image : Image} {index : Nat} {m : Machine}

theorem rests_asks {fiber : Fiber} (h : fiber.Rests image) {wakeAt : Option Nat}
    {request : Option Request} (hrequest : ∀ r, request = some r → r.role < image.roles.size) :
    Fiber.Rests image { fiber with wakeAt, request } :=
  ⟨⟨h.1.callers, hrequest⟩, h.2⟩

theorem send_leaves (hsends : m.host.sendsLeft = none) (p : Packet) :
    Outcome (fun _ m' => ∃ host, m' = { m with host } ∧ host.sendsLeft = none) (fun _ _ => False)
      (send p m) := by
  rw [send, bind_iff, get_iff]
  cases hsent : m.host.send? p with
  | none =>
    rw [Host.send?, hsends] at hsent
    cases hsent
  | some host =>
    refine ⟨host, rfl, ?_⟩
    rw [Host.send?, hsends] at hsent
    cases hsent
    rfl

theorem serveRequest_rests (h : m.Rests image) (hlt : index < m.fibers.length) :
    Outcome (fun _ m' => m'.Rests image ∧ index < m'.fibers.length) (fun _ _ => False)
      (serveRequest index m) := by
  have hfiber := List.getElem?_eq_getElem hlt
  generalize m.fibers[index] = fiber at hfiber
  have hsound := (h.fibers fiber (List.mem_of_getElem? hfiber)).1
  have hserved (m' : Machine) (hlive : m'.Live image)
      (hfibers : m'.fibers = m.fibers.modify index ({ · with request := none }))
      (hoperands : m'.operands = m.operands) : m'.Rests image ∧ index < m'.fibers.length :=
    ⟨h.modify _ hlive (fun _ hf => rests_asks hf (by simp)) hfibers hoperands, by simpa [hfibers] using hlt⟩
  simp only [serveRequest, bind_iff, fiber_iff hfiber]
  cases hrequest : fiber.request with
  | none => exact ⟨h, hlt⟩
  | some request =>
    have hrole := hsound.request request hrequest
    have hroleLt : request.role < m.roles.length := h.roles ▸ hrole
    simp only [bind_iff, get_iff, role_iff (List.getElem?_eq_getElem hroleLt)]
    cases m.roles[request.role].binding with
    | none =>
      simp only [bind_iff, modifyFiber_iff, pure_iff]
      exact ⟨h.modify _ (h.toLive.congr rfl) (fun _ hf => rests_asks hf hf.1.request) rfl rfl, by simpa using hlt⟩
    | some b =>
      cases request with
      | send role code payload =>
        simp only [bind_iff, modifyFiber_iff, pure_iff]
        refine (send_leaves h.sends _).imp ?_
        rintro _ _ ⟨host, rfl, hsends⟩
        exact hserved _ (h.toLive.host hsends rfl) rfl rfl
      | query role code resend =>
        simp only
        generalize (if m.roles[(Request.query role code resend).role].receives m.packet then
          CachedRegister.update? { role, code } role m.packet m.host.now else none) = entry
        cases entry with
        | some entry =>
          simp only [bind_iff, Outcome.set_iff, modifyFiber_iff, pure_iff]
          exact hserved _ (h.toLive.congr rfl) rfl rfl
        | none =>
          have hlater : ∀ r : Request, some (Request.query role code (min (2 * resend) m.config.resendMax)) = some r →
                r.role < image.roles.size := by
            intro r hr
            rw [Option.some.injEq] at hr
            exact hr ▸ hrole
          simp only [ite_iff, bind_iff, modifyFiber_iff, pure_iff]
          refine ⟨fun _ => ?_, fun _ => ⟨h, hlt⟩⟩
          refine (send_leaves ?_ _).imp ?_
          · exact h.sends
          rintro _ _ ⟨host, rfl, hsends⟩
          exact ⟨h.modify _ (h.toLive.host hsends rfl) (fun _ hf => rests_asks hf hlater) rfl rfl, by simpa using hlt⟩

theorem resume_leaves (h : m.Rests image) (hlt : index < m.fibers.length) :
    Outcome (fun goesOn m' => if goesOn then m'.Runs image index else m'.Rests image)
      (fun _ _ => False) (resume index m) := by
  simp only [resume, bind_iff]
  refine (serveRequest_rests h hlt).imp ?_
  rintro stays m' ⟨h', hlt'⟩
  cases stays with
  | true => simpa using h'
  | false =>
    obtain ⟨hhosts, hframe⟩ := h'.hosts (List.getElem?_eq_getElem hlt')
    simp only [bind_iff, modifyFiber_iff, pure_iff, if_true, Bool.false_eq_true, if_false]
    have hawake : Hosts image index _
        { m' with fibers := m'.fibers.modify index ({ · with wakeAt := none, observed := none }) } :=
      hhosts.modify ({ · with wakeAt := none, observed := none }) rfl ⟨hhosts.sound.callers, hhosts.sound.request⟩ rfl
    exact restoreRegs_runs hawake hframe h'.operands

theorem finish_leaves (hsafe : image.Safe) (h : Flow.Leaves image index .finish m) :
    Outcome (fun goesOn m' => if goesOn then m'.Runs image index else m'.Rests image)
      (fun _ _ => False) (finish index m) := by
  obtain ⟨fiber, f, n, hhosts, hcallers, hat, hoperands⟩ := h
  simp only [finish, bind_iff, fiber_iff hhosts.fiber_at, ite_iff, modifyFiber_iff,
    Outcome.modify_iff, pure_iff, if_true, Bool.false_eq_true, if_false]
  refine ⟨fun _ => ?_, fun _ => ?_⟩
  · refine ⟨_, hhosts.modify (fun f => { f with isPending := false, frame := f.frame.restart })
      rfl ⟨hhosts.sound.callers, hhosts.sound.request⟩ rfl, ?_⟩
    -- nothing is collected in front of the first word
    exact ⟨f, 0, ⟨hat.function, hat.startPc, hat.startPc, hat.numLocals, hat.slots⟩,
      size_pos_of_isClosed (hsafe.closed hat.function), hoperands⟩
  · exact hhosts.erase rfl rfl hoperands

end Stepping

end BusScript
