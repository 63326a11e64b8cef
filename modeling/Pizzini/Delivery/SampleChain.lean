import Pizzini.Delivery.HashChainToken
import Pizzini.Relay.PlainEnv

/-!
# A registered chain to compute with

One recipient, one seed and an empty relay store in the plain environment, used
by the concrete runs of the other modules.
-/

namespace Pizzini.Delivery

open Wire Relay

/-- The plain environment's hash step, on byte strings of any length. -/
def plainBlake3 (bs : Bytes) : ChainValue :=
  ⟨(bs.map (· + 1) ++ List.replicate CHAIN_VALUE_LEN 0).take CHAIN_VALUE_LEN, by
    rw [List.length_take, List.length_append, List.length_replicate]
    omega⟩

theorem plainEnv_sameHash : SameHash plainEnv plainBlake3 := by
  intro v
  refine Subtype.ext ?_
  have hlen : (v.1.map (· + 1)).length = CHAIN_VALUE_LEN := by
    rw [List.length_map]
    exact v.2
  exact (List.take_left' hlen).symm

def samplePeer : FixedBytes 33 := .replicate 33 5
def sampleSeed : ChainValue := .replicate _ 7
def sampleChainID : ChainId := .replicate _ 9
def sampleNamespace : Bytes := [1, 2]

def sampleRand : Rand where
  key := .replicate _ 1
  recordNonce := .replicate _ 2
  snapshotNonce := .replicate _ 3

/-- A relay nobody has registered at. -/
def emptyStore : ChainValidatorStore where
  key := .replicate _ 1
  map := ∅
  journalLen := 0

/-- The sample chain with `length` tokens. -/
def sampleChain (length : Nat) : Chain := mintChain plainBlake3 sampleSeed sampleChainID length

/-- The sample chain's registration at one relay. -/
def sampleRegistration (relayNamespace : Bytes) (length : Nat) : ChainRegistration where
  peerId := samplePeer
  chainId := relayScopedChainID plainBlake3 sampleChainID relayNamespace
  root := (sampleChain length).root
  length := .ofNat length

/-- The empty relay behind the registration of the sample chain. -/
def sampleRelay (relayNamespace : Bytes) (length : Nat) : ChainValidatorStore :=
  (register plainEnv sampleRand 100 emptyStore (sampleRegistration relayNamespace length)).store

theorem registration_sample (relayNamespace : Bytes) (length : Nat) (h : length < 2 ^ 32) :
    registration plainBlake3 samplePeer relayNamespace (sampleChain length) =
      some (sampleRegistration relayNamespace length) := by
  rw [registration, if_pos (show (sampleChain length).length < 2 ^ 32 from h)]
  rfl

/-- An empty relay registers the sample chain. -/
theorem register_sample (relayNamespace : Bytes) {length : Nat} (hpos : 0 < length)
    (hmax : length ≤ 2 ^ 20) :
    (register plainEnv sampleRand 100 emptyStore
      (sampleRegistration relayNamespace length)).result = .ok .registered := by
  have hsize : length < 2 ^ 32 := by omega
  have hnat : (UInt32.ofNat length).toNat = length := UInt32.toNat_ofNat_of_lt' hsize
  have hlen : ¬ (UInt32.ofNat length = 0 ∨ MAX_CHAIN_LENGTH < UInt32.ofNat length) := by
    rintro (hzero | hbig)
    · rw [hzero] at hnat
      simp at hnat
      omega
    · rw [UInt32.lt_iff_toNat_lt, hnat] at hbig
      have hmaxLen : MAX_CHAIN_LENGTH.toNat = 2 ^ 20 := by decide
      omega
  have hspec := register_fresh plainEnv_lawful sampleRand 100 emptyStore
    (sampleRegistration relayNamespace length) hlen rfl
  exact hspec.1

end Pizzini.Delivery
