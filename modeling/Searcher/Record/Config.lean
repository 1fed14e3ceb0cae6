/-
# Records of configurations
-/

import Searcher.Config
import Searcher.Json.Fields

namespace Searcher

/-- The environment whose variables are the members of an object. -/
def Environment.ofJson (j : Json) : Environment := fun key => (j.present? key).map Json.toText

namespace Config

def fields (c : Config) : List (String × Json) :=
  [("http_endpoint", .str c.httpEndpoint), ("relay_ws_endpoint", .str c.relayWsEndpoint),
    ("relay_block_ws_endpoint", .str c.relayBlockWsEndpoint), ("relay_http_endpoint", .str c.relayHttpEndpoint),
    ("relay_authorization", .str c.relayAuthorization), ("network", .str c.network),
    ("fork_endpoint", .str c.forkEndpoint), ("account_private_key", .ofOption .str c.privateKey),
    ("contract_address", .ofOption .ofAddress c.contract), ("attacker_bytecode_path", .ofOption .str c.codePath),
    ("wrapped_native", .ofAddress c.wrappedNative), ("workers", .count c.workers),
    ("queue_capacity", .count c.queueCapacity), ("multicall_chunk", .count c.multicallChunk),
    ("trial_timeout_ms", .count c.trialTimeout), ("path_timeout_ms", .count c.pathTimeout),
    ("tick_cache_capacity", .count c.tickCacheCapacity), ("reconnect_delay_ms", .count c.reconnectDelay),
    ("attacker", .ofAddress c.attacker), ("fork_endpoints", .ofList (.str ∘ c.forkEndpointFor) (List.range 4))]

end Config
end Searcher
