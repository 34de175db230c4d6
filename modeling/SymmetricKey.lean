import SymmetricKey.BlockCipher.Shared
import SymmetricKey.Catalogue.Overrides
import SymmetricKey.Confidentiality.Cfb
import SymmetricKey.Confidentiality.Xts
import SymmetricKey.Authentication.Cmac
import SymmetricKey.Authentication.Xcbc
import SymmetricKey.Authentication.Gmac
import SymmetricKey.Authentication.Kmac
import SymmetricKey.Derivation.Concat
import SymmetricKey.Derivation.Scrypt
import SymmetricKey.Proofs.CounterMode
import SymmetricKey.Proofs.FreshCounters
import SymmetricKey.Proofs.GcmBuffers
import SymmetricKey.Proofs.GcmFunction
import SymmetricKey.Proofs.GcmOpening
import SymmetricKey.Proofs.FilledTables
import SymmetricKey.Proofs.HashedBlocks
import SymmetricKey.Proofs.QuotientField
import SymmetricKey.Proofs.GcmStandard
import SymmetricKey.Proofs.GmacTags
import SymmetricKey.Proofs.GmacRefusals
import SymmetricKey.Proofs.CmacStandard
import SymmetricKey.Proofs.ChainRefusals
import SymmetricKey.Proofs.CounterText
import SymmetricKey.Proofs.XcbcStandard
import SymmetricKey.Proofs.TweakedText
import SymmetricKey.Proofs.TweakedInverse
import SymmetricKey.Proofs.TweakedStandard
import SymmetricKey.Proofs.ResumedCalls
import SymmetricKey.Proofs.HmacStandard
import SymmetricKey.Proofs.AbsorbedStrings
import SymmetricKey.Proofs.ScryptStandard
import SymmetricKey.Proofs.ConcatStandard
import SymmetricKey.Proofs.OverrideRuns
import SymmetricKey.Proofs.StreamPositions
import SymmetricKey.Proofs.GeneratorStreams
import SymmetricKey.Proofs.FaultlessCalls
import SymmetricKey.Proofs.AesInverse
import SymmetricKey.Proofs.AriaInverse
import SymmetricKey.Proofs.SerpentInverse
import SymmetricKey.Proofs.TwofishInverse
import SymmetricKey.Proofs.FeistelInverse
import SymmetricKey.Proofs.LoggedCalls
import SymmetricKey.Proofs.ClosedMessages
import SymmetricKey.Proofs.FieldStages
import SymmetricKey.Proofs.TriviumInverse
import SymmetricKey.Proofs.ScryptLimits
import SymmetricKey.Proofs.PermutationStandard
import SymmetricKey.Proofs.OneDoubling
