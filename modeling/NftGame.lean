import NftGame.Expiry
import NftGame.Access
import NftGame.Contention
import NftGame.Refinement
import NftGame.Commute
import NftGame.Neutral
import NftGame.ZeroAnswer
import NftGame.Wear
import NftGame.Locality
import NftGame.FrontEnd
import NftGame.Pages
import NftGame.Unended
import NftGame.Clicks
import NftGame.ERC721
import NftGame.ERC721Enumerable
import NftGame.Enumerates
import NftGame.Reentrancy
import NftGame.TokenLists
import NftGame.TokenRuns
import NftGame.TokenLogs
import NftGame.Consent
import NftGame.Strings
import NftGame.SignedStrings
import NftGame.HexStrings
import NftGame.JsonStrings
import NftGame.TemplatePallet
