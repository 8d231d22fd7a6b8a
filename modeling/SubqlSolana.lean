import SubqlSolana.Solana.BlockFilter
import SubqlSolana.Solana.Logs
import SubqlSolana.Solana.UnknownLines
import SubqlSolana.Solana.InstructionLookup
import SubqlSolana.Solana.Payloads
import SubqlSolana.Solana.LoadIdls
import SubqlSolana.Solana.Memoized
import SubqlSolana.Solana.NameFilter
import SubqlSolana.Solana.Formats
import SubqlSolana.Codegen.HiddenHandlers
import SubqlSolana.Codegen.Interfaces
import SubqlSolana.Unfinalized.Representation
import SubqlSolana.Unfinalized.Decision
import SubqlSolana.Unfinalized.Search
import SubqlSolana.Unfinalized.Agreement
import SubqlSolana.Unfinalized.Fallback
import SubqlSolana.Unfinalized.Pruning
import SubqlSolana.Unfinalized.Restart
import SubqlSolana.Unfinalized.Safety
import SubqlSolana.Unfinalized.Rewind
import SubqlSolana.Unfinalized.ForkFree
import SubqlSolana.Unfinalized.Poi
import SubqlSolana.Unfinalized.Ratchet
import SubqlSolana.Unfinalized.Recovery
import SubqlSolana.Unfinalized.Omissions
import SubqlSolana.Indexer.ExecutionOrder
import SubqlSolana.Project.Validation
import SubqlSolana.Project.DynamicDs
import SubqlSolana.Dictionary.Coverage
import SubqlSolana.Dictionary.DiscriminatorTexts
import SubqlSolana.Dictionary.Paging
import SubqlSolana.Dictionary.TypedBlocks
import SubqlSolana.Dictionary.FullScan
