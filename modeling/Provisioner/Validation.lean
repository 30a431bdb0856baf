import Provisioner.Ipaddress

/-!
# `Validation.check_ip4`

The attrs validator of the IP fields of the network, node and storage enclosure inputs. It lets
falsy values, `UNCHANGED` and the literal strings `'None'` and `'""'` through, and otherwise
parses the value with `IPv4Address` and compares the rendering of the result with the value, so
that only canonical dotted-decimal text passes.
-/

namespace Provisioner

/-- What `check_ip4` catches: the error of `IPv4Address(value)`, or its own canonical-form error
`"IP is not in canonical form.Canonical form of IP can be {str(ip)}"`. -/
inductive Ip4Cause where
  | address (e : AddressValueError)
  | notCanonical (canonical : String)
  deriving DecidableEq

/-- The `ValueError` `check_ip4` raises,
`f"{attribute.name}: invalid ip4 address {value} Error: {str(exc)}"`. -/
structure InvalidIp4 where
  attrName : String
  value : PyValue
  cause : Ip4Cause
  deriving DecidableEq

section

variable (token : Special → String)

/-- `Validation.check_ip4(instance, attribute, value)`, for an attribute named `attrName`. -/
def Validation.checkIp4 (attrName : String) (value : PyValue) : Except InvalidIp4 Unit :=
  if value.truthy ∧ value ≠ .special .unchanged ∧ value ≠ .str "None" ∧ value ≠ .str "\"\"" then
    match IPv4Address.new token value with
    | .error e => .error ⟨attrName, value, .address e⟩
    | .ok ip =>
        if PyValue.str ip.toString ≠ value then .error ⟨attrName, value, .notCanonical ip.toString⟩
        else .ok ()
  else .ok ()

end

def Ip4Accepted (v : PyValue) : Prop :=
  v.truthy = false ∨ v = .special .unchanged ∨ v = .str "None" ∨ v = .str "\"\"" ∨
    ∃ a : IPv4Address, v = .str a.toString

namespace Validation

variable {token : Special → String} {attrName : String} {v : PyValue}

theorem new_toString (a : IPv4Address) : IPv4Address.new token (.str a.toString) = .ok a := by
  simp only [IPv4Address.new, PyValue.toStr]
  rw [show a.toString.toList = a.toChars from rfl, if_neg (slash_not_mem_toChars a)]
  exact ipIntFromString_toChars a

theorem checkIp4_error_attribute {e : InvalidIp4} (h : checkIp4 token attrName v = .error e) :
    e.attrName = attrName := by
  unfold checkIp4 at h
  split at h
  · split at h
    · cases h; rfl
    · split at h
      · cases h; rfl
      · cases h
  · cases h

theorem checkIp4_ok_of_accepted (h : Ip4Accepted v) : checkIp4 token attrName v = .ok () := by
  unfold checkIp4
  split
  · rename_i hg
    obtain ⟨ht, hu, hn, hq⟩ := hg
    obtain ⟨a, rfl⟩ : ∃ a : IPv4Address, v = .str a.toString := by
      rcases h with h | h | h | h | h
      · simp [h] at ht
      all_goals first | exact absurd h ‹_› | exact h
    rw [new_toString]
    simp
  · rfl

theorem accepted_of_checkIp4_ok (h : checkIp4 token attrName v = .ok ()) : Ip4Accepted v := by
  unfold checkIp4 at h
  split at h
  · split at h
    · cases h
    · rename_i ip _
      split at h
      · cases h
      · rename_i hne
        exact .inr (.inr (.inr (.inr ⟨ip, (not_not.mp hne).symm⟩)))
  · rename_i hg
    unfold Ip4Accepted
    by_cases ht : v.truthy = false
    · exact .inl ht
    · have := Bool.eq_true_of_not_eq_false ht
      tauto

/-- `check_ip4` returns exactly on the accepted values, and every error it raises names the
attribute. -/
theorem checkIp4_spec :
    (checkIp4 token attrName v = .ok () ↔ Ip4Accepted v) ∧
      ∀ e, checkIp4 token attrName v = .error e → e.attrName = attrName :=
  ⟨⟨accepted_of_checkIp4_ok, checkIp4_ok_of_accepted⟩, fun _ => checkIp4_error_attribute⟩

theorem checkIp4_special_rejected (k : Special) (hk : k ≠ .unchanged) :
    checkIp4 token attrName (.special k) ≠ .ok () := by
  unfold checkIp4
  rw [if_pos ⟨rfl, by simpa using hk, nofun, nofun⟩]
  split
  · nofun
  · rw [if_pos nofun]
    nofun

theorem checkIp4_rejects_undefined_none :
    checkIp4 (fun _ => "") "mgmt_gateway" (.special .undefined) ≠ .ok () ∧
      checkIp4 (fun _ => "") "mgmt_gateway" (.special .none) ≠ .ok () :=
  ⟨checkIp4_special_rejected .undefined nofun, checkIp4_special_rejected .none nofun⟩

end Validation

end Provisioner
